import Sprawling.Gateway.Preset
import Mathlib.Algebra.Order.BigOperators.Group.List
import Mathlib.Algebra.Order.Group.Nat

/-! What a second pass over a normalised URL makes of it. It sees the text the first one wrote, so each
part is shown to be found again: the scheme, the authority, the path without its faces, and the suffix. -/

namespace Sprawling

open List Text Preset Locality

namespace Normalise

open Reach

/-! ### Faces -/

theorem stripOneFace_cases (segments : List (List Char)) :
    stripOneFace segments = (segments, .unset) ∨
      (stripOneFace segments).2 ≠ .unset ∧ segments ≠ [] ∧
        (stripOneFace segments).1 <+: segments.dropLast := by
  unfold stripOneFace
  split_ifs with first second third fourth
  · refine .inr ⟨by simp, ?_, dropLast_prefix _⟩
    rintro rfl
    cases first
  · exact .inl rfl
  · refine .inr ⟨by simp, ?_, prefix_rfl⟩
    rintro rfl
    cases third
  · refine .inr ⟨by simp, ?_, prefix_rfl⟩
    rintro rfl
    cases fourth
  · exact .inl rfl

variable {segments : List (List Char)}

theorem stripFaces_kept {turns : Nat} (enough : segments.length ≤ turns) (face : DialectHint) :
    (stripFaces turns segments face).1 <+: segments ∧
      (stripOneFace (stripFaces turns segments face).1).2 = .unset := by
  induction turns generalizing segments face with
  | zero =>
    rw [length_eq_zero_iff.mp (Nat.le_zero.mp enough)]
    exact ⟨prefix_rfl, rfl⟩
  | succ turns ih =>
    unfold stripFaces
    rcases stripOneFace_cases segments with stays | ⟨turned, some_segment, shorter⟩
    · rw [stays]
      exact ⟨prefix_rfl, by rw [stays]⟩
    · rcases made : stripOneFace segments with ⟨rest, found⟩
      rw [made] at turned shorter
      have less : rest.length ≤ turns := by
        have bound : rest.length ≤ _ := shorter.length_le
        have positive := length_pos_of_ne_nil some_segment
        rw [length_dropLast] at bound
        omega
      obtain ⟨begins, ends⟩ := ih less (if face = .unset then found else face)
      cases found with
      | unset => exact absurd rfl turned
      | chat | responses | messages =>
        exact ⟨begins.trans (shorter.trans (List.dropLast_prefix _)), ends⟩

theorem stripFaces_of_unset (ended : (stripOneFace segments).2 = .unset) (turns : Nat)
    (face : DialectHint) : stripFaces turns segments face = (segments, face) := by
  cases turns with
  | zero => rfl
  | succ turns =>
    unfold stripFaces
    rcases made : stripOneFace segments with ⟨rest, found⟩
    rw [made] at ended
    cases ended
    rfl

theorem stripFace_of_unset (ended : (stripOneFace segments).2 = .unset) :
    stripFace segments = (segments, .unset) := stripFaces_of_unset ended _ _

theorem stripFace_begins (segments : List (List Char)) : (stripFace segments).1 <+: segments :=
  (stripFaces_kept le_rfl .unset).1

theorem stripFace_ended (segments : List (List Char)) :
    (stripOneFace (stripFace segments).1).2 = .unset := (stripFaces_kept le_rfl .unset).2

/-! ### The path -/

def segmentsOf (path : List Char) : List (List Char) := (path.splitOn '/').filter (· ≠ [])

variable {path : List Char}

theorem segmentsOf_spec {segment : List Char} (member : segment ∈ segmentsOf path) :
    segment ≠ [] ∧ '/' ∉ segment ∧ ∀ c ∈ segment, c ∈ path := by
  obtain ⟨listed, filled⟩ := mem_filter.mp member
  exact ⟨by simpa using filled, not_mem_of_mem_splitOn listed,
    fun c inside => mem_of_mem_splitOn listed inside⟩

variable {kept : List (List Char)}

theorem segmentsOf_intercalate (clean : ∀ segment ∈ kept, segment ≠ [] ∧ '/' ∉ segment) :
    segmentsOf (['/'].intercalate kept) = kept := by
  unfold segmentsOf
  cases kept with
  | nil => rfl
  | cons first rest =>
    rw [splitOn_intercalate _ (fun segment member => (clean segment member).2) (by simp)]
    exact filter_eq_self.mpr fun segment member => by simp [(clean segment member).1]

theorem intercalate_ne_nil (some_segment : kept ≠ [])
    (clean : ∀ segment ∈ kept, segment ≠ []) : ['/'].intercalate kept ≠ [] := by
  cases kept with
  | nil => exact absurd rfl some_segment
  | cons first rest =>
    have filled := clean first mem_cons_self
    cases rest with
    | nil => simpa using filled
    | cons second rest => simp [intercalate_cons_cons, filled]

theorem resolvePath_again {path suffix : List Char} {preset : Option (List Char)}
    (settled : ∀ listed, preset = some listed → Preset.Settled (trimSlashes listed)) :
    ∃ body, (resolvePath (stripFace (segmentsOf path)).1 suffix preset = [] ∧ body = [] ∨
        resolvePath (stripFace (segmentsOf path)).1 suffix preset = '/' :: body) ∧
      (stripOneFace (segmentsOf body)).2 = .unset ∧
      resolvePath (segmentsOf body) suffix preset =
        resolvePath (stripFace (segmentsOf path)).1 suffix preset := by
  have clean : ∀ segment ∈ (stripFace (segmentsOf path)).1, segment ≠ [] ∧ '/' ∉ segment :=
    fun segment member =>
      have spec := segmentsOf_spec ((stripFace_begins _).subset member)
      ⟨spec.1, spec.2.1⟩
  have ended := stripFace_ended (segmentsOf path)
  generalize (stripFace (segmentsOf path)).1 = kept at *
  by_cases some_segment : kept = []
  · subst some_segment
    by_cases asked : suffix = []
    · subst asked
      cases preset with
      | none => exact ⟨['v', '1'], .inr rfl, rfl, rfl⟩
      | some listed =>
        rcases settled listed rfl with root | ⟨-, -, filled, faceless, -⟩
        · refine ⟨[], .inl ⟨?_, rfl⟩, rfl, rfl⟩
          simp [resolvePath, root]
        · have made : resolvePath [] [] (some listed) = '/' :: trimSlashes listed := by
            cases bare : trimSlashes listed with
            | nil => simp [bare] at filled
            | cons c rest => simp [resolvePath, bare]
          have found : segmentsOf (trimSlashes listed) = (trimSlashes listed).splitOn '/' :=
            filter_eq_self.mpr fun segment member => by simp [filled segment member]
          have joined : ['/'].intercalate ((trimSlashes listed).splitOn '/') = trimSlashes listed :=
            intercalate_splitOn '/'
          have some_path : trimSlashes listed ≠ [] := fun bare => by simp [bare] at filled
          refine ⟨trimSlashes listed, .inr made, by rw [found, faceless], ?_⟩
          rw [found, made, resolvePath, joined]
          exact if_pos some_path
    · refine ⟨[], .inl ⟨?_, rfl⟩, rfl, rfl⟩
      simp [resolvePath, asked]
  · have joined := intercalate_ne_nil some_segment fun segment member => (clean segment member).1
    have found := segmentsOf_intercalate clean
    have made : resolvePath kept suffix preset = '/' :: ['/'].intercalate kept := by
      rw [resolvePath]
      exact if_pos joined
    exact ⟨['/'].intercalate kept, .inr made, by rw [found, ended], by rw [found]⟩

theorem mem_intercalate {mark c : Char} {parts : List (List Char)}
    (member : c ∈ [mark].intercalate parts) : c = mark ∨ ∃ part ∈ parts, c ∈ part := by
  induction parts with
  | nil => cases member
  | cons first rest ih =>
    cases rest with
    | nil => exact .inr ⟨first, by simp, by simpa using member⟩
    | cons second rest =>
      rw [intercalate_cons_cons] at member
      simp only [mem_append, mem_singleton] at member
      rcases member with (inside | same) | later
      · exact .inr ⟨first, by simp, inside⟩
      · exact .inl same
      · rcases ih later with same | ⟨part, listed, inside⟩
        · exact .inl same
        · exact .inr ⟨part, mem_cons_of_mem _ listed, inside⟩

theorem mem_resolvePath {path suffix : List Char} {preset : Option (List Char)}
    (settled : ∀ listed, preset = some listed → Preset.Settled (trimSlashes listed)) {mark : Char}
    (opens : mark = '?' ∨ mark = '#')
    (member : mark ∈ resolvePath (stripFace (segmentsOf path)).1 suffix preset) : mark ∈ path := by
  have apart : mark ≠ '/' := by
    rcases opens with rfl | rfl <;> decide
  unfold resolvePath at member
  simp only at member
  split_ifs at member with entered asked
  · simp only [mem_cons, apart, false_or] at member
    rcases mem_intercalate member with same | ⟨segment, listed, inside⟩
    · exact absurd same apart
    · exact (segmentsOf_spec ((stripFace_begins _).subset listed)).2.2 _ inside
  · cases member
  · cases preset with
    | none =>
      rcases opens with rfl | rfl <;> exact absurd member (by decide)
    | some listed =>
      rcases settled listed rfl with root | ⟨unasked, plain, -⟩
      · simp [root] at member
      · have inside : mark ∈ trimSlashes listed := by
          cases bare : trimSlashes listed with
          | nil => simp [bare] at member
          | cons c rest => simpa [bare, apart] using member
        rcases opens with rfl | rfl
        · exact absurd inside unasked
        · exact absurd inside plain

/-! ### The whole -/

def authorityOf (locator : List Char) : List Char := (splitPath (splitSuffix locator).1).1

def keptOf (locator : List Char) : List (List Char) :=
  (stripFace (segmentsOf (splitPath (splitSuffix locator).1).2)).1

section Settle

variable {given : Option (List Char)} {locator host : List Char} {machine : Bool}
  {hint : DialectHint} {presets : HostDefaults}

theorem settle_baseUrl : (settle given locator host machine hint presets).baseUrl =
    given.getD (if machine then http else https) ++ colonSlashes ++
      (authorityOf locator).map Char.toLower ++ resolvePath (keptOf locator) (splitSuffix locator).2
        (presets.defaultPath host (settle given locator host machine hint presets).dialect) ++
      (splitSuffix locator).2 := rfl

theorem settle_dialect_again {fromUrl : DialectHint} :
    (match resolveDialect .unset
        (match resolveDialect fromUrl hint host presets with
          | .unset => if machine then .chat else .unset
          | settled => settled) host presets with
      | .unset => if machine then DialectHint.chat else .unset
      | settled => settled) =
    match resolveDialect fromUrl hint host presets with
      | .unset => if machine then .chat else .unset
      | settled => settled := by
  cases from_url : resolveDialect fromUrl hint host presets with
  | chat | responses | messages => rfl
  | unset =>
    cases machine with
    | true => rfl
    | false =>
      have silent : resolveDialect .unset .unset host presets = .unset := by
        cases fromUrl with
        | unset => cases hint <;> first | exact from_url | cases from_url
        | chat | responses | messages => cases from_url
      simp [silent]

end Settle

theorem splitPath_eq (address : List Char) :
    ((splitPath address).2 = [] ∧ address = (splitPath address).1 ∨
      address = (splitPath address).1 ++ '/' :: (splitPath address).2) ∧
      '/' ∉ (splitPath address).1 := by
  unfold splitPath
  cases found : splitOnce '/' address with
  | none => exact ⟨.inl ⟨rfl, rfl⟩, splitOnce_eq_none.mp found⟩
  | some sides =>
    obtain ⟨whole, absent⟩ := splitOnce_eq_some.mp found
    exact ⟨.inr whole, absent⟩

theorem splitPath_append {authority body : List Char} (absent : '/' ∉ authority)
    (shape : path = [] ∧ body = [] ∨ path = '/' :: body) :
    splitPath (authority ++ path) = (authority, body) := by
  rcases shape with ⟨rfl, rfl⟩ | rfl
  · rw [append_nil, splitPath, splitOnce_eq_none.mpr absent]
    rfl
  · rw [splitPath, splitOnce_eq_some.mpr ⟨rfl, absent⟩]
    rfl

/-- The dialect of a URL that ends in no face. -/
def dialectOf (machine : Bool) (hint : DialectHint) (host : List Char) (presets : HostDefaults) :
    DialectHint :=
  match resolveDialect .unset hint host presets with
  | .unset => if machine then .chat else .unset
  | settled => settled

variable {scheme rest : List Char} {presets : HostDefaults} {machine : Bool}

theorem settle_of_parts {address suffix authority body host : List Char}
    {face : DialectHint} (cut : splitSuffix rest = (address, suffix))
    (path : splitPath address = (authority, body))
    (ended : (stripOneFace (segmentsOf body)).2 = .unset) :
    settle (some scheme) rest host machine face presets =
      ⟨scheme ++ colonSlashes ++ authority.map Char.toLower ++
        resolvePath (segmentsOf body) suffix
          (presets.defaultPath host (dialectOf machine face host presets)) ++ suffix,
        dialectOf machine face host presets⟩ := by
  have faceless := stripFace_of_unset ended
  unfold settle
  rw [cut]
  simp only [path]
  rw [← segmentsOf, faceless]
  rfl

variable {normalised : Normalised} {hint : DialectHint}

variable {given : Option (List Char)} {locator host : List Char}

theorem settle_again
    (paths : ∀ host face listed, presets.defaultPath host face = some listed → Preset.Settled (trimSlashes listed))
    (made : settle given locator host machine hint presets = normalised) :
    ∃ rest, normalised.baseUrl = given.getD (if machine then http else https) ++ colonSlashes ++ rest ∧
      authorityOf rest = (authorityOf locator).map Char.toLower ∧
      (splitSuffix rest).2 = (splitSuffix locator).2 ∧
      (splitSuffix rest).1 = (authorityOf locator).map Char.toLower ++ resolvePath (keptOf locator)
        (splitSuffix locator).2 (presets.defaultPath host normalised.dialect) ∧
      settle (some (given.getD (if machine then http else https))) rest host machine
        normalised.dialect presets = normalised := by
  subst made
  obtain ⟨cut, whole⟩ := splitSuffix_cut locator
  obtain ⟨shape, absent⟩ := splitPath_eq (splitSuffix locator).1
  have again := @settle_dialect_again host machine hint presets
    (stripFace (segmentsOf (splitPath (splitSuffix locator).1).2)).2
  have base := @settle_baseUrl given locator host machine hint presets
  have dialect : dialectOf machine (settle given locator host machine hint presets).dialect host
      presets = (settle given locator host machine hint presets).dialect := again
  generalize settle given locator host machine hint presets = normalised at *
  have settled := paths host normalised.dialect
  obtain ⟨body, form, ended, same⟩ := @resolvePath_again (splitPath (splitSuffix locator).1).2
    (splitSuffix locator).2 (presets.defaultPath host normalised.dialect) settled
  have marks := @mem_resolvePath (splitPath (splitSuffix locator).1).2
    (splitSuffix locator).2 (presets.defaultPath host normalised.dialect) settled
  rw [keptOf, authorityOf] at base
  rw [keptOf, authorityOf]
  generalize resolvePath (stripFace (segmentsOf (splitPath (splitSuffix locator).1).2)).1
    (splitSuffix locator).2 (presets.defaultPath host normalised.dialect) = path at *
  have inside : ∀ mark : Char, mark = '?' ∨ mark = '#' →
      mark ∈ (splitPath (splitSuffix locator).1).1.map Char.toLower ++ path →
        mark ∈ (splitSuffix locator).1 := by
    intro mark opens member
    have letter : Text.Mark mark := by rcases opens with rfl | rfl <;> decide
    have in_address : mark ∈ (splitPath (splitSuffix locator).1).1 ∨
        mark ∈ (splitPath (splitSuffix locator).1).2 := by
      rcases mem_append.mp member with member | member
      · exact .inl ((mem_map_toLower letter).mp member)
      · exact .inr (marks opens member)
    rcases shape with ⟨bare, alone⟩ | joined
    · rw [bare] at in_address
      rw [alone]
      exact in_address.resolve_right not_mem_nil
    · rw [joined]
      simp only [mem_append, mem_cons]
      exact in_address.imp_right .inr
  generalize (splitPath (splitSuffix locator).1).1 = authority at *
  generalize (splitSuffix locator).2 = suffix at *
  have recut : Cut (authority.map Char.toLower ++ path) suffix := by
    cases cut with
    | whole unasked plain =>
      exact .whole (fun it => unasked (inside _ (.inl rfl) it))
        fun it => plain (inside _ (.inr rfl) it)
    | query unasked query => exact .query (fun it => unasked (inside _ (.inl rfl) it)) query
    | fragment unasked plain later =>
      exact .fragment (fun it => unasked (inside _ (.inl rfl) it))
        (fun it => plain (inside _ (.inr rfl) it)) later
  have slashless : '/' ∉ authority.map Char.toLower :=
    fun it => absent ((mem_map_toLower (by decide)).mp it)
  have split_rest := recut.splitSuffix_append
  have split_address := splitPath_append slashless form
  have lower : (authority.map Char.toLower).map Char.toLower = authority.map Char.toLower := by
    rw [map_map]
    exact map_congr_left fun c _ => toLower_toLower c
  refine ⟨authority.map Char.toLower ++ path ++ suffix, by simp [base], ?_, ?_, ?_, ?_⟩
  · rw [authorityOf, split_rest]
    exact congrArg Prod.fst split_address
  · rw [split_rest]
  · rw [split_rest]
  · rw [settle_of_parts split_rest split_address ended, dialect, same, lower, ← base]

variable {entered : List Char}

theorem refuseScheme_eq_ok :
    refuseScheme entered given = .ok () ↔ ∀ scheme, given = some scheme → scheme = http ∨ scheme = https := by
  cases given with
  | none => simp [refuseScheme]
  | some scheme =>
    simp only [refuseScheme, Option.some.injEq, forall_eq']
    split_ifs with unknown
    · simp only [false_iff, not_or]
      exact unknown
    · simp only [true_iff]
      by_contra neither
      exact unknown (not_or.mp neither)

theorem takeWhile_locator (locator : List Char) :
    locator.takeWhile (fun c => !endsAuthority c) =
      (authorityOf locator).takeWhile fun c => !endsAuthority c := by
  obtain ⟨cut, whole⟩ := splitSuffix_cut locator
  conv_lhs => rw [whole]
  exact takeWhile_authority cut

variable {locator : List Char}

theorem hostOf_again (same : authorityOf rest = (authorityOf locator).map Char.toLower) :
    hostOf rest = (hostOf locator).map (List.map Char.toLower) := by
  have first := takeWhile_locator rest
  have second := takeWhile_locator locator
  rw [hostOf, first, same, takeWhile_authority_toLower, afterUser_toLower, hostAndPort_toLower, hostOf,
    second]
  cases hostAndPort 80 (afterUser ((authorityOf locator).takeWhile fun c => !endsAuthority c)) <;> rfl

theorem known_toLower (known : scheme = http ∨ scheme = https) :
    scheme.map Char.toLower = scheme := by
  rcases known with rfl | rfl <;> rfl

theorem readScheme_known (known : scheme = http ∨ scheme = https)
    (clean : trim (scheme ++ colonSlashes ++ rest) = scheme ++ colonSlashes ++ rest) :
    readScheme (scheme ++ colonSlashes ++ rest) = (some scheme, rest) := by
  rw [readScheme, clean, splitScheme_known known]
  simp only [known_toLower known]

theorem accepted_parts (accepted : normalise entered hint presets = .ok normalised) :
    refuseCredentials (readScheme entered).2 = .ok () ∧
      (∀ scheme, (readScheme entered).1 = some scheme → scheme = http ∨ scheme = https) ∧
      ∃ host, hostOf (readScheme entered).2 = some host ∧ host ≠ [] ∧
        settle (readScheme entered).1 (readScheme entered).2 (host.map Char.toLower)
          (decide (ofHost host = .machine)) hint presets = normalised := by
  obtain ⟨clean, known, host, port, tls, found, made⟩ := normalise_eq_ok.mp accepted
  have schemes := refuseScheme_eq_ok.mp known
  have probe_known : (readScheme entered).1.getD http = http ∨
      (readScheme entered).1.getD http = https := by
    cases given : (readScheme entered).1 with
    | none => exact .inl rfl
    | some scheme => exact schemes scheme given
  obtain ⟨pointed, filled⟩ := (split_known probe_known).mp ⟨port, tls, found⟩
  refine ⟨clean, schemes, host, pointed, filled, ?_⟩
  rw [isLocal, ofUrl_of_split found] at made
  exact made

/-! ### What a base URL ends in -/

def endsBlank (text : List Char) : Bool := text.getLast?.any Text.isWhitespace

theorem endsBlank_append {front back : List Char} (some_back : back ≠ []) :
    endsBlank (front ++ back) = endsBlank back := by
  rw [endsBlank, getLast?_append_of_ne_nil _ some_back, endsBlank]

theorem isWhitespace_toLower (c : Char) : Text.isWhitespace c.toLower = Text.isWhitespace c := by
  by_cases upper : 65 ≤ c.toNat ∧ c.toNat ≤ 90
  · have turned : c.toLower.toNat = c.toNat + 32 := by rw [toNat_toLower, if_pos upper]
    have plain : ∀ d : Char, 33 ≤ d.toNat → d.toNat ≤ 126 → Text.isWhitespace d = false := by
      intro d low high
      simp only [Text.isWhitespace, Bool.or_eq_false_iff, Bool.and_eq_false_iff, beq_eq_false_iff_ne,
        decide_eq_false_iff_not]
      omega
    rw [plain _ (by omega) (by omega), plain c (by omega) (by omega)]
  · rw [toLower_of_not_upper upper]

theorem endsBlank_toLower (text : List Char) : endsBlank (text.map Char.toLower) = endsBlank text := by
  rw [endsBlank, getLast?_map, endsBlank]
  cases text.getLast? with
  | none => rfl
  | some c => exact isWhitespace_toLower c

theorem getLast?_intercalate {mark : Char} {parts : List (List Char)} {last : List Char}
    (ends : parts.getLast? = some last) (filled : last ≠ []) :
    ([mark].intercalate parts).getLast? = last.getLast? := by
  induction parts with
  | nil => cases ends
  | cons first rest ih =>
    cases rest with
    | nil =>
      rw [getLast?_singleton, Option.some.injEq] at ends
      rw [intercalate_singleton, ends]
    | cons second rest =>
      have later := ih (by rwa [getLast?_cons_cons] at ends)
      have joined : [mark].intercalate (second :: rest) ≠ [] := by
        intro empty
        rw [empty] at later
        exact filled (getLast?_eq_none_iff.mp later.symm)
      rw [intercalate_cons_cons, getLast?_append_of_ne_nil _ joined, later]

theorem length_intercalate {mark : Char} {parts : List (List Char)} (some_part : parts ≠ []) :
    ([mark].intercalate parts).length + 1 = (parts.map fun part => part.length + 1).sum := by
  induction parts with
  | nil => exact absurd rfl some_part
  | cons first rest ih =>
    cases rest with
    | nil => simp
    | cons second rest =>
      have later := ih (by simp)
      rw [intercalate_cons_cons, map_cons, sum_cons, ← later]
      simp only [length_append, length_singleton]
      omega

theorem length_intercalate_le {mark : Char} {few many : List (List Char)} (fewer : few.Sublist many) :
    ([mark].intercalate few).length ≤ ([mark].intercalate many).length := by
  by_cases bare : few = []
  · simp [bare]
  · have some_part : many ≠ [] := by
      rintro rfl
      exact bare (sublist_nil.mp fewer)
    have first := @length_intercalate mark few bare
    have second := @length_intercalate mark many some_part
    have order : (few.map fun part => part.length + 1).sum ≤
        (many.map fun part => part.length + 1).sum :=
      (fewer.map _).sum_le_sum fun _ _ => Nat.zero_le _
    omega

/-- What the path of a base URL ends in: the last segment that is kept, or the preset's. -/
theorem getLast?_resolvePath {suffix : List Char} {preset : Option (List Char)}
    (settled : ∀ listed, preset = some listed → Preset.Settled (trimSlashes listed)) :
    (∃ segment c, (stripFace (segmentsOf path)).1.getLast? = some segment ∧
      segment.getLast? = some c ∧ c ≠ '/' ∧
      (resolvePath (stripFace (segmentsOf path)).1 suffix preset).getLast? = some c) ∨
    (stripFace (segmentsOf path)).1 = [] ∧
      ((suffix ≠ [] ∨ suffix = [] ∧ preset.map trimSlashes = some []) ∧
          resolvePath (stripFace (segmentsOf path)).1 suffix preset = [] ∨
        suffix = [] ∧ preset.map trimSlashes ≠ some [] ∧ ∃ c, c ≠ '/' ∧ Text.isWhitespace c = false ∧
          (resolvePath (stripFace (segmentsOf path)).1 suffix preset).getLast? = some c) := by
  have clean : ∀ segment ∈ (stripFace (segmentsOf path)).1, segment ≠ [] ∧ '/' ∉ segment :=
    fun segment member =>
      have spec := segmentsOf_spec ((stripFace_begins _).subset member)
      ⟨spec.1, spec.2.1⟩
  generalize (stripFace (segmentsOf path)).1 = kept at *
  cases ends : kept.getLast? with
  | some segment =>
    have member := mem_of_getLast? ends
    obtain ⟨filled, plain⟩ := clean segment member
    have joined := intercalate_ne_nil (ne_nil_of_mem member) fun part inside =>
      (clean part inside).1
    have made : resolvePath kept suffix preset = '/' :: ['/'].intercalate kept := by
      rw [resolvePath]
      exact if_pos joined
    have last := @getLast?_intercalate '/' kept segment ends filled
    cases stop : segment.getLast? with
    | none => exact absurd (getLast?_eq_none_iff.mp stop) filled
    | some c =>
      refine .inl ⟨segment, c, rfl, stop, ?_, ?_⟩
      · rintro rfl
        exact plain (mem_of_getLast? stop)
      · rw [made, ← singleton_append, getLast?_append_of_ne_nil _ joined, last, stop]
  | none =>
    rw [getLast?_eq_none_iff] at ends
    subst ends
    refine .inr ⟨rfl, ?_⟩
    by_cases asked : suffix = []
    · subst asked
      cases preset with
      | none => exact .inr ⟨rfl, by simp, '1', by decide, by decide, rfl⟩
      | some listed =>
        by_cases root : trimSlashes listed = []
        · exact .inl ⟨.inr ⟨rfl, by simp [root]⟩, by simp [resolvePath, root]⟩
        · have made : resolvePath [] [] (some listed) = '/' :: trimSlashes listed := by
            cases bare : trimSlashes listed with
            | nil => exact absurd bare root
            | cons c rest => simp [resolvePath, bare]
          obtain ⟨-, -, filled, -, unblank⟩ := (settled listed rfl).resolve_left root
          refine .inr ⟨rfl, by simp [root], ?_⟩
          cases stop : (trimSlashes listed).getLast? with
          | none => exact absurd (getLast?_eq_none_iff.mp stop) root
          | some c =>
            refine ⟨c, ?_, by simpa [stop] using unblank, ?_⟩
            · rintro rfl
              obtain ⟨front, whole⟩ := getLast?_eq_some_iff.mp stop
              refine filled [] ?_ rfl
              rw [whole, splitOn_append_cons_self]
              simp
            · rw [made, ← singleton_append, getLast?_append_of_ne_nil _ root, stop]
    · exact .inl ⟨.inl asked, by simp [resolvePath, asked]⟩

theorem getLast?_address {preset : Option (List Char)}
    (settled : ∀ listed, preset = some listed → Preset.Settled (trimSlashes listed))
    (pointed : hostOf locator = some host) (filled : host ≠ []) :
    ((authorityOf locator).map Char.toLower ++
      resolvePath (keptOf locator) (splitSuffix locator).2 preset).getLast?.any (· ≠ '/') = true := by
  obtain ⟨-, absent⟩ := splitPath_eq (splitSuffix locator).1
  have last := @getLast?_resolvePath (splitPath (splitSuffix locator).1).2 (splitSuffix locator).2
    preset settled
  rw [← keptOf] at last
  have some_authority : authorityOf locator ≠ [] := by
    intro empty
    rw [hostOf, takeWhile_locator, empty] at pointed
    exact filled (Option.some.inj pointed).symm
  have of_path : ∀ c, c ≠ '/' → (resolvePath (keptOf locator) (splitSuffix locator).2
      preset).getLast? = some c → ((authorityOf locator).map Char.toLower ++
        resolvePath (keptOf locator) (splitSuffix locator).2 preset).getLast?.any (· ≠ '/') = true := by
    intro c apart ends
    rw [getLast?_append_of_ne_nil, ends]
    · simpa using apart
    · intro empty
      rw [empty] at ends
      cases ends
  rcases last with ⟨segment, c, -, -, apart, ends⟩ | ⟨-, ⟨-, bare⟩ | ⟨-, -, c, apart, -, ends⟩⟩
  · exact of_path c apart ends
  · rw [bare, append_nil]
    cases ends : ((authorityOf locator).map Char.toLower).getLast? with
    | none => exact absurd (map_eq_nil_iff.mp (getLast?_eq_none_iff.mp ends)) some_authority
    | some c =>
      have apart : c ≠ '/' := by
        rintro rfl
        exact absent ((mem_map_toLower (by decide)).mp (mem_of_getLast? ends))
      simpa using apart
  · exact of_path c apart ends

theorem normalise_again
    (paths : ∀ host face listed, presets.defaultPath host face = some listed → Preset.Settled (trimSlashes listed))
    (accepted : normalise entered hint presets = .ok normalised) :
    ∃ scheme rest, (scheme = http ∨ scheme = https) ∧
      normalised.baseUrl = scheme ++ colonSlashes ++ rest ∧
      (splitSuffix rest).1.getLast?.any (· ≠ '/') = true ∧
      (trim normalised.baseUrl = normalised.baseUrl →
        normalise normalised.baseUrl normalised.dialect presets = .ok normalised) := by
  obtain ⟨clean, schemes, host, pointed, filled, made⟩ := accepted_parts accepted
  generalize (readScheme entered).1 = given at *
  generalize (readScheme entered).2 = locator at *
  obtain ⟨unnamed, examined⟩ := refuseCredentials_eq_ok.mp clean
  generalize machine_now : decide (ofHost host = .machine) = machine at made
  obtain ⟨rest, base, authority, suffix, address, again⟩ := settle_again paths made
  have base_known : given.getD (if machine then http else https) = http ∨
      given.getD (if machine then http else https) = https := by
    cases given with
    | none => cases machine <;> simp
    | some scheme => exact schemes scheme rfl
  generalize given.getD (if machine then http else https) = scheme at *
  have slashless : (splitSuffix rest).1.getLast?.any (· ≠ '/') = true := by
    rw [address]
    exact getLast?_address (paths _ normalised.dialect) pointed filled
  refine ⟨scheme, rest, base_known, base, slashless, fun clean_base => ?_⟩
  have lower : (host.map Char.toLower).map Char.toLower = host.map Char.toLower := by
    rw [map_map]
    exact map_congr_left fun c _ => toLower_toLower c
  have turned : hostOf rest = some (host.map Char.toLower) := by
    rw [hostOf_again authority, pointed, Option.map_some]
  have still_filled : host.map Char.toLower ≠ [] := fun empty => filled (map_eq_nil_iff.mp empty)
  obtain ⟨port, tls, found⟩ := (split_known base_known).mpr ⟨turned, still_filled⟩
  have read : readScheme normalised.baseUrl = (some scheme, rest) := by
    rw [base] at clean_base ⊢
    exact readScheme_known base_known clean_base
  have machine_again : isLocal (scheme ++ colonSlashes ++ rest) = machine := by
    rw [isLocal, ofUrl_of_split found, ofHost_toLower, machine_now]
  refine normalise_eq_ok.mpr ?_
  rw [read]
  refine ⟨refuseCredentials_eq_ok.mpr ⟨?_, ?_⟩, refuseScheme_eq_ok.mpr ?_, host.map Char.toLower, port,
    tls, found, ?_⟩
  · rw [← authorityOf, authority, mem_map_toLower (by decide)]
    exact unnamed
  · rw [suffix]
    exact examined
  · intro other same
    cases same
    exact base_known
  · rw [lower]
    show settle (some scheme) rest _ (isLocal (scheme ++ colonSlashes ++ rest)) _ _ = _
    rw [machine_again, again]

theorem trim_known {scheme rest : List Char} (known : scheme = http ∨ scheme = https) :
    trim (scheme ++ colonSlashes ++ rest) =
      scheme ++ colonSlashes ++ rest.rdropWhile Text.isWhitespace := by
  have front : ∃ start, scheme ++ colonSlashes = start ++ ['/'] ∧
      ∀ more : List Char, (start ++ '/' :: more).dropWhile Text.isWhitespace = start ++ '/' :: more := by
    rcases known with rfl | rfl
    · exact ⟨['h', 't', 't', 'p', ':', '/'], rfl, fun more => rfl⟩
    · exact ⟨['h', 't', 't', 'p', 's', ':', '/'], rfl, fun more => rfl⟩
  obtain ⟨start, front, stays⟩ := front
  have whole : scheme ++ colonSlashes ++ rest = start ++ '/' :: rest := by rw [front]; simp
  have wanted : scheme ++ colonSlashes ++ rest.rdropWhile Text.isWhitespace =
      start ++ '/' :: rest.rdropWhile Text.isWhitespace := by rw [front]; simp
  rw [trim, whole, stays, wanted]
  induction rest using List.reverseRecOn with
  | nil =>
    rw [rdropWhile_nil]
    exact rdropWhile_concat_neg _ _ _ (by decide)
  | append_singleton rest c ih =>
    have joined : start ++ '/' :: (rest ++ [c]) = (start ++ '/' :: rest) ++ [c] := by simp
    rw [joined]
    by_cases white : Text.isWhitespace c = true
    · rw [rdropWhile_concat_pos _ _ _ white, rdropWhile_concat_pos _ _ _ white]
      refine ih ?_ ?_
      · rw [front]
        simp
      · rw [front]
        simp
    · rw [rdropWhile_concat_neg _ _ _ white, rdropWhile_concat_neg _ _ _ white]
      simp

theorem trim_base (known : scheme = http ∨ scheme = https) :
    (trim (scheme ++ colonSlashes ++ rest) = scheme ++ colonSlashes ++ rest ↔
        endsBlank (scheme ++ colonSlashes ++ rest) = false) ∧
      (trim (scheme ++ colonSlashes ++ rest)).length ≤
        (scheme ++ colonSlashes ++ rest).length := by
  have bound : (rest.rdropWhile Text.isWhitespace).length ≤ rest.length :=
    (List.rdropWhile_prefix _ _).length_le
  refine ⟨⟨fun same => ?_, fun unblank => ?_⟩, ?_⟩
  · have clean := trimmed_trim (scheme ++ colonSlashes ++ rest)
    rw [same] at clean
    rw [endsBlank]
    cases last : (scheme ++ colonSlashes ++ rest).getLast? with
    | none => rfl
    | some c => exact clean.2 c last
  · refine trim_of_trimmed ⟨fun c first => ?_, fun c last => ?_⟩
    · rcases known with rfl | rfl <;> cases first <;> decide
    · rw [endsBlank, last] at unblank
      exact unblank
  · rw [trim_known known]
    simp only [length_append]
    omega

section Settle

variable {given : Option (List Char)} {locator host : List Char} {machine : Bool}
  {hint : DialectHint} {presets : HostDefaults}
  (paths : ∀ host face listed, presets.defaultPath host face = some listed →
    Preset.Settled (trimSlashes listed))
include paths

theorem endsBlank_settle :
    endsBlank (settle given locator host machine hint presets).baseUrl = true ↔
      (splitSuffix locator).2 ≠ [] ∧ endsBlank (splitSuffix locator).2 = true ∨
      (splitSuffix locator).2 = [] ∧
        ((∃ segment, (keptOf locator).getLast? = some segment ∧ endsBlank segment = true) ∨
          keptOf locator = [] ∧ endsBlank (authorityOf locator) = true ∧
            (presets.defaultPath host (settle given locator host machine hint presets).dialect).map
              trimSlashes = some []) := by
  rw [settle_baseUrl, ← endsBlank_toLower (authorityOf locator)]
  by_cases asked : (splitSuffix locator).2 = []
  · have last := @getLast?_resolvePath (splitPath (splitSuffix locator).1).2 (splitSuffix locator).2
      _ (paths host (settle given locator host machine hint presets).dialect)
    rw [← keptOf] at last
    rw [asked] at last ⊢
    rw [append_nil]
    generalize given.getD (if machine then http else https) = scheme
    generalize (authorityOf locator).map Char.toLower = authority
    rcases last with ⟨segment, c, ends, stop, -, made⟩ | ⟨bare, ⟨root, made⟩ |
      ⟨-, unrooted, c, -, dark, made⟩⟩
    · have some_path : resolvePath (keptOf locator) [] (presets.defaultPath host
          (settle given locator host machine hint presets).dialect) ≠ [] := by
        intro empty
        rw [empty] at made
        cases made
      rw [endsBlank_append some_path, endsBlank, made]
      simp [ends, endsBlank, stop, ne_nil_of_mem (mem_of_getLast? ends)]
    · rw [made, append_nil, bare]
      have listed := (root.resolve_left (· rfl)).2
      have front : endsBlank (scheme ++ colonSlashes ++ authority) = endsBlank authority := by
        by_cases some_authority : authority = []
        · rw [some_authority, append_nil, endsBlank_append (by decide)]
          rfl
        · exact endsBlank_append some_authority
      rw [front]
      simp [listed]
    · have some_path : resolvePath (keptOf locator) [] (presets.defaultPath host
          (settle given locator host machine hint presets).dialect) ≠ [] := by
        intro empty
        rw [empty] at made
        cases made
      rw [endsBlank_append some_path, endsBlank, made]
      simp [bare, unrooted, dark]
  · rw [endsBlank_append asked]
    simp [asked]

theorem length_settle_le {scheme : List Char} (given_is : given = some scheme)
    (bare : (splitSuffix locator).2 = [])
    (blank : endsBlank (settle given locator host machine hint presets).baseUrl = true) :
    (settle given locator host machine hint presets).baseUrl.length ≤
      (scheme ++ colonSlashes ++ locator).length := by
  obtain ⟨-, whole⟩ := splitSuffix_cut locator
  obtain ⟨shape, -⟩ := splitPath_eq (splitSuffix locator).1
  have cause := (endsBlank_settle paths).mp blank
  rw [settle_baseUrl]
  generalize (settle given locator host machine hint presets).dialect = dialect at *
  rw [bare] at cause whole
  subst given_is
  rw [append_nil] at whole
  have joined : (['/'].intercalate (keptOf locator)).length ≤
      (splitPath (splitSuffix locator).1).2.length := by
    have fewer : (keptOf locator).Sublist ((splitPath (splitSuffix locator).1).2.splitOn '/') :=
      (stripFace_begins _).sublist.trans filter_sublist
    have bound := @length_intercalate_le '/' _ _ fewer
    rwa [intercalate_splitOn '/'] at bound
  have placed := (cause.resolve_left fun it => it.1 rfl).2
  have path_length : (resolvePath (keptOf locator) [] (presets.defaultPath host dialect)).length +
      (authorityOf locator).length ≤ locator.length := by
    rcases placed with ⟨segment, ends, -⟩ | ⟨none_kept, -, root⟩
    · have member := mem_of_getLast? ends
      have made : resolvePath (keptOf locator) [] (presets.defaultPath host dialect) =
          '/' :: ['/'].intercalate (keptOf locator) := by
        rw [resolvePath]
        exact if_pos (intercalate_ne_nil (ne_nil_of_mem member) fun part inside =>
          (segmentsOf_spec ((stripFace_begins _).subset inside)).1)
      rcases shape with ⟨empty, -⟩ | shape
      · have gone : keptOf locator = [] := by
          rw [keptOf, empty]
          rfl
        rw [gone] at member
        cases member
      · have sizes := congrArg List.length (whole.trans shape)
        simp only [length_append, length_cons] at sizes
        rw [made, length_cons, authorityOf]
        omega
    · have made : resolvePath (keptOf locator) [] (presets.defaultPath host dialect) = [] := by
        simp [none_kept, resolvePath, root]
      have inside : (authorityOf locator).length ≤ locator.length := by
        rcases shape with ⟨-, alone⟩ | shape
        · rw [authorityOf, ← alone, ← whole]
        · have sizes := congrArg List.length (whole.trans shape)
          simp only [length_append, length_cons] at sizes
          rw [authorityOf]
          omega
      rw [made, length_nil, Nat.zero_add]
      exact inside
  rw [bare]
  simp only [append_nil, length_append, length_map, Option.getD_some]
  omega

end Settle

theorem readScheme_locator (entered : List Char) :
    ∃ front, trim entered = front ++ (readScheme entered).2 := by
  rw [readScheme]
  cases found : splitScheme (trim entered) with
  | none => exact ⟨[], rfl⟩
  | some sides => exact ⟨sides.1 ++ colonSlashes, splitScheme_eq_some found⟩

theorem endsBlank_suffix (asked : (splitSuffix (readScheme entered).2).2 ≠ []) :
    endsBlank (splitSuffix (readScheme entered).2).2 = false := by
  obtain ⟨front, trimmed⟩ := readScheme_locator entered
  obtain ⟨-, whole⟩ := splitSuffix_cut (readScheme entered).2
  have clean := trimmed_trim entered
  rw [trimmed, whole, ← append_assoc] at clean
  rw [← @endsBlank_append (front ++ (splitSuffix (readScheme entered).2).1) _ asked, endsBlank]
  cases last : (front ++ (splitSuffix (readScheme entered).2).1 ++
    (splitSuffix (readScheme entered).2).2).getLast? with
  | none => rfl
  | some c => exact clean.2 c last

/-- The face a text ends in, or the person's choice. -/
def chosenFace (locator : List Char) (hint : DialectHint) : DialectHint :=
  match (stripFace (segmentsOf (splitPath (splitSuffix locator).1).2)).2 with
  | .unset => hint
  | face => face

/-- With no suffix behind it, a blank ends the last segment that is kept; or no segment is kept, the
host serves the face at its root, and a blank ends the authority. -/
def RestsOnBlank (entered : List Char) (hint : DialectHint) : Prop :=
  (splitSuffix (readScheme entered).2).2 = [] ∧
    ((∃ segment, (keptOf (readScheme entered).2).getLast? = some segment ∧ endsBlank segment = true) ∨
      keptOf (readScheme entered).2 = [] ∧ endsBlank (authorityOf (readScheme entered).2) = true ∧
        (hostOf (readScheme entered).2).map (List.map Char.toLower) = some rooted ∧
        chosenFace (readScheme entered).2 hint ≠ .messages)

theorem dialect_ne_messages :
    (settle given locator rooted machine hint defaults).dialect ≠ .messages ↔
      chosenFace locator hint ≠ .messages := by
  have silent : defaults.defaultDialect rooted = none := by decide +kernel
  have dialect : (settle given locator rooted machine hint defaults).dialect =
      match resolveDialect (stripFace (segmentsOf (splitPath (splitSuffix locator).1).2)).2 hint
        rooted defaults with
      | .unset => if machine then .chat else .unset
      | settled => settled := rfl
  rw [dialect, chosenFace]
  cases (stripFace (segmentsOf (splitPath (splitSuffix locator).1).2)).2 with
  | unset =>
    cases hint with
    | unset => cases machine <;> simp [resolveDialect, silent]
    | chat | responses | messages => simp [resolveDialect]
  | chat | responses | messages => simp [resolveDialect]

theorem endsBlank_baseUrl (accepted : normaliseEntered entered hint = .ok normalised) :
    endsBlank normalised.baseUrl = true ↔ RestsOnBlank entered hint := by
  obtain ⟨-, -, host, pointed, -, made⟩ := accepted_parts accepted
  have cause := @endsBlank_settle (readScheme entered).1 (readScheme entered).2
    (host.map Char.toLower) (decide (ofHost host = .machine)) hint defaults
    fun _ _ _ => defaultPath_settled
  have no_suffix : ¬((splitSuffix (readScheme entered).2).2 ≠ [] ∧
      endsBlank (splitSuffix (readScheme entered).2).2 = true) := by
    rintro ⟨asked, blank⟩
    rw [endsBlank_suffix asked] at blank
    cases blank
  rw [or_iff_right no_suffix, defaultPath_root] at cause
  rw [← made, cause, RestsOnBlank, pointed, Option.map_some, Option.some.injEq]
  refine and_congr_right fun _ => or_congr_right (and_congr_right fun _ => and_congr_right fun _ =>
    and_congr_right fun named => ?_)
  rw [named]
  exact dialect_ne_messages

theorem endsBlank_of_again
    (paths : ∀ host face listed, presets.defaultPath host face = some listed → Preset.Settled (trimSlashes listed))
    (known : scheme = http ∨ scheme = https)
    (base : normalised.baseUrl = scheme ++ colonSlashes ++ rest)
    (again : normalise normalised.baseUrl normalised.dialect presets = .ok normalised) :
    endsBlank normalised.baseUrl = false := by
  obtain ⟨-, -, host, -, -, made⟩ := accepted_parts again
  have read : readScheme normalised.baseUrl = (some scheme, rest.rdropWhile Text.isWhitespace) := by
    rw [base, readScheme, trim_known known, splitScheme_known known]
    simp only [known_toLower known]
  rw [Bool.eq_false_iff]
  intro blank
  have cause := blank
  rw [← made, endsBlank_settle paths] at cause
  rcases cause with ⟨asked, late⟩ | ⟨bare, -⟩
  · rw [endsBlank_suffix asked] at late
    cases late
  · have longer := length_settle_le paths (congrArg Prod.fst read) bare (by rw [made]; exact blank)
    rw [made, read, base] at longer
    have shorter := (List.rdropWhile_prefix Text.isWhitespace rest).length_le
    have same : rest.rdropWhile Text.isWhitespace = rest := by
      refine (List.rdropWhile_prefix _ _).eq_of_length ?_
      simp only [length_append] at longer
      omega
    have trimmed := @trim_known scheme rest known
    rw [same] at trimmed
    rw [base, (trim_base known).1.mp trimmed] at blank
    cases blank

/-- Normalising a base URL again gives the same answer, unless a blank ends it; it names its scheme, and
no slash stands before its query. -/
theorem normaliseEntered_again {entered : List Char} {hint : DialectHint} {normalised : Normalised}
    (accepted : normaliseEntered entered hint = .ok normalised) :
    (normaliseEntered normalised.baseUrl normalised.dialect = .ok normalised ↔
      ¬RestsOnBlank entered hint) ∧
    ∃ scheme address suffix, (scheme = http ∨ scheme = https) ∧
      normalised.baseUrl = scheme ++ colonSlashes ++ address ++ suffix ∧ Cut address suffix ∧
      (scheme ++ colonSlashes ++ address).getLast? ≠ some '/' := by
  have paths : ∀ host face listed, defaults.defaultPath host face = some listed →
      Preset.Settled (trimSlashes listed) := fun _ _ _ => defaultPath_settled
  obtain ⟨scheme, rest, known, base, slashless, again⟩ := normalise_again paths accepted
  obtain ⟨cut, whole⟩ := splitSuffix_cut rest
  constructor
  · rw [← endsBlank_baseUrl accepted, Bool.not_eq_true]
    constructor
    · exact endsBlank_of_again paths known base
    · intro unblank
      refine again ?_
      rw [base] at unblank ⊢
      exact (trim_base known).1.mpr unblank
  · refine ⟨scheme, (splitSuffix rest).1, (splitSuffix rest).2, known, ?_, cut, ?_⟩
    · rw [append_assoc _ (splitSuffix rest).1, ← whole, base]
    · cases ends : (splitSuffix rest).1.getLast? with
      | none => simp [ends] at slashless
      | some c =>
        rw [getLast?_append, ends]
        simpa [ends] using slashless

example : keptOf ['h', '/', 'v', '/'] = [['v']] := by decide +kernel

def chatUrl : List Char := "api.x.ai/v1/chat/completions".toList

theorem normaliseEntered_again_chatUrl :
    ∃ normalised, normaliseEntered chatUrl .unset = .ok normalised ∧
      normaliseEntered normalised.baseUrl normalised.dialect = .ok normalised := by
  refine ⟨⟨"https://api.x.ai/v1".toList, .chat⟩, by decide +kernel, ?_⟩
  refine (@normaliseEntered_again chatUrl .unset _ (by decide +kernel)).1.mpr ?_
  have kept : keptOf (readScheme chatUrl).2 = [['v', '1']] := by decide +kernel
  rintro ⟨-, ⟨segment, ends, blank⟩ | ⟨bare, -⟩⟩
  · rw [kept] at ends
    cases ends
    cases blank
  · rw [kept] at bare
    cases bare

/-- A segment that ends in a blank, with a slash behind it in the text. -/
def blankSegment : List Char := ['h', '/', 'v', ' ', '/']

theorem not_normaliseEntered_again :
    normaliseEntered blankSegment .chat = .ok ⟨"https://h/v ".toList, .chat⟩ ∧
      normaliseEntered "https://h/v ".toList .chat ≠ .ok ⟨"https://h/v ".toList, .chat⟩ := by
  decide +kernel

end Normalise

end Sprawling
