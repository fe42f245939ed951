import Sprawling.Base.Runs
import Sprawling.Kernel.Secret.Scan
import Mathlib.Data.List.Perm.Basic

namespace Sprawling

open List

namespace Secret

open Runs (runs)

/-- What a shape makes of a text that its leading bytes open: the longest run of its body alphabet,
within its shortest and its longest length. -/
def shapeHit (shape : SecretShape) (rest : Bytes) (start : Nat) : Option SecretSpan :=
  let leading := Ascii.bytes shape.leading
  let body := ((rest.drop leading.length).takeWhile (charsetAdmits shape.charset)).length
  let total := leading.length + body
  if total ≥ shape.len.1 then some ⟨start, min total shape.len.2, some shape.provider⟩ else none

/-- Whether the leading bytes of a shape, which are some, open a text. -/
def leads (shape : SecretShape) (rest : Bytes) : Bool :=
  !(Ascii.bytes shape.leading).isEmpty && (Ascii.bytes shape.leading).isPrefixOf rest

/-- The hits of one shape by a pass of its own from left to right. The pass goes on behind the
leading bytes of a match, of which `passed` are still ahead. -/
def ownPass (shape : SecretShape) : Bytes → (start passed : Nat) → List SecretSpan
  | [], _, _ => []
  | _ :: rest, start, passed + 1 => ownPass shape rest (start + 1) passed
  | first :: rest, start, 0 =>
    if leads shape (first :: rest) then
      (shapeHit shape (first :: rest) start).toList ++
        ownPass shape rest (start + 1) ((Ascii.bytes shape.leading).length - 1)
    else ownPass shape rest (start + 1) 0

/-- The hits of every shape by a pass for each, sorted by start and length. -/
def ownHits (bytes : Bytes) : List SecretSpan :=
  inOrder (secretShapes.flatMap fun shape => ownPass shape bytes 0 0)

/-- Whether `start..stop` overlaps one of the spans. -/
def overlapped (hits : List SecretSpan) (start stop : Nat) : Bool :=
  hits.any fun hit => hit.start < stop && hit.stop > start

/-- Whether a run of token bytes reads as a secret. -/
def readsAsSecret (bytes run : Bytes) (start : Nat) : Bool :=
  run.length ≥ entropySpanMinBytes &&
    ((mixedAlphabet run && entropyPasses run) || isLabelledHexSecret bytes run start)

/-- A token run that reads as a secret and overlaps no shape hit. -/
def tokenSecret (bytes : Bytes) (hits : List SecretSpan) (found : Nat × Bytes) : Option SecretSpan :=
  if readsAsSecret bytes found.2 found.1 && !overlapped hits found.1 (found.1 + found.2.length) then
    some ⟨found.1, found.2.length, none⟩
  else none

/-- The plain scan: a pass for each shape, and every maximal token run held against every hit. -/
def reference (bytes : Bytes) : List SecretSpan :=
  let hits := ownHits bytes
  inOrder (hits ++ (runs tokenByte false bytes 0).filterMap (tokenSecret bytes hits))

example : (reference (Ascii.bytes "AKIAKIA0123456789ABCD")).map SecretSpan.start = [0] := by
  decide +kernel

/-! ### The shapes -/

theorem secretShapes_apart : ∀ shape ∈ secretShapes, Ascii.bytes shape.leading ≠ [] ∧
    ∀ other ∈ secretShapes, Ascii.bytes shape.leading <+: Ascii.bytes other.leading →
      shape = other := by
  decide +kernel

variable {shape : SecretShape} {rest : Bytes}

theorem leads_iff (listed : shape ∈ secretShapes) :
    leads shape rest = true ↔ Ascii.bytes shape.leading <+: rest := by
  have some_bytes := (secretShapes_apart shape listed).1
  rw [leads, Bool.and_eq_true, isPrefixOf_iff_prefix, Bool.not_eq_true', isEmpty_eq_false_iff]
  exact and_iff_right some_bytes

theorem shapeAt_eq (shape : SecretShape) (rest : Bytes) (start next : Nat) :
    shapeAt rest start (shape, next) =
      if start < next ∨ leads shape rest = false then (none, next)
      else (shapeHit shape rest start, start + (Ascii.bytes shape.leading).length) := by
  simp only [shapeAt, leads, shapeHit]
  by_cases early : start < next
  · simp only [early, decide_true, Bool.true_or, true_or, if_true]
  · simp only [early, decide_false, Bool.false_or, false_or]
    cases (Ascii.bytes shape.leading).isEmpty <;>
      cases (Ascii.bytes shape.leading).isPrefixOf rest <;> rfl

theorem ownPass_cons (shape : SecretShape) (first : UInt8) (rest : Bytes) (start next : Nat) :
    ownPass shape (first :: rest) start (next - start) =
      (shapeAt (first :: rest) start (shape, next)).1.toList ++
        ownPass shape rest (start + 1)
          ((shapeAt (first :: rest) start (shape, next)).2 - (start + 1)) := by
  rw [shapeAt_eq]
  by_cases early : start < next
  · obtain ⟨ahead, rfl⟩ := Nat.exists_eq_add_of_lt early
    have counted : start + ahead + 1 - start = ahead + 1 := by omega
    have left : start + ahead + 1 - (start + 1) = ahead := by omega
    rw [if_pos (Or.inl early), counted, left, ownPass]
    rfl
  · have counted : next - start = 0 := by omega
    rw [counted, ownPass]
    cases opened : leads shape (first :: rest) with
    | true =>
      have past : start + (Ascii.bytes shape.leading).length - (start + 1) =
          (Ascii.bytes shape.leading).length - 1 := by omega
      rw [if_pos rfl, if_neg (by simp only [early, Bool.true_eq_false, or_self, not_false_eq_true]),
        past]
    | false =>
      have left : next - (start + 1) = 0 := by omega
      rw [if_neg Bool.false_ne_true, if_pos (Or.inr rfl), left]
      rfl

variable {first : UInt8}

theorem not_leads_of_unopened (listed : shape ∈ secretShapes)
    (unopened : opensAShape first = false) (rest : Bytes) :
    leads shape (first :: rest) = false := by
  rw [Bool.eq_false_iff]
  intro opened
  obtain ⟨tail, joined⟩ := (leads_iff listed).mp opened
  have absent := any_eq_false.mp unopened shape listed
  apply absent
  cases written : Ascii.bytes shape.leading with
  | nil => exact absurd written (secretShapes_apart shape listed).1
  | cons head leading =>
    rw [written] at joined
    have same : head = first := (List.cons.inj joined).1
    rw [same]
    exact decide_eq_true rfl

theorem ownPass_unopened (listed : shape ∈ secretShapes)
    (unopened : opensAShape first = false) (rest : Bytes) (start next : Nat) :
    ownPass shape (first :: rest) start (next - start) =
      ownPass shape rest (start + 1) (next - (start + 1)) := by
  rw [ownPass_cons, shapeAt_eq, if_pos (Or.inr (not_leads_of_unopened listed unopened rest))]
  rfl

variable {α β γ : Type}

theorem zip_map_zip (f : α × β → γ) (first : List α) (second : List β) :
    first.zip ((first.zip second).map f) = (first.zip second).map fun pair => (pair.1, f pair) := by
  induction first generalizing second with
  | nil => rfl
  | cons item first ih =>
    cases second with
    | nil => rfl
    | cons other second => simp only [zip_cons_cons, map_cons, ih]

theorem filterMap_fst_map (f : α → Option β × γ) (items : List α) :
    (items.map f).filterMap Prod.fst = items.flatMap fun item => (f item).1.toList := by
  rw [filterMap_map, filterMap_eq_flatMap_toList]
  rfl

theorem shapeHitsFrom_perm (rest : Bytes) (start : Nat) (resume : List Nat) :
    (shapeHitsFrom rest start resume).Perm
      ((secretShapes.zip resume).flatMap fun entry => ownPass entry.1 rest start (entry.2 - start)) := by
  induction rest generalizing start resume with
  | nil =>
    have nothing : (secretShapes.zip resume).flatMap (fun entry =>
        ownPass entry.1 [] start (entry.2 - start)) = [] :=
      flatMap_eq_nil_iff.mpr fun _ _ => rfl
    rw [nothing]
    exact List.Perm.refl _
  | cons first rest ih =>
    rw [shapeHitsFrom]
    cases opens : opensAShape first with
    | true =>
      have step : (fun entry : SecretShape × Nat =>
          ownPass entry.1 (first :: rest) start (entry.2 - start)) = fun entry =>
            (shapeAt (first :: rest) start entry).1.toList ++
              ownPass entry.1 rest (start + 1)
                ((shapeAt (first :: rest) start entry).2 - (start + 1)) := by
        funext entry
        exact ownPass_cons entry.1 first rest start entry.2
      have later := ih (start + 1) (((secretShapes.zip resume).map
        (shapeAt (first :: rest) start)).map Prod.snd)
      rw [map_map, zip_map_zip, flatMap_map] at later
      rw [if_pos rfl, step]
      simp only [filterMap_fst_map, map_map]
      exact (List.Perm.append_left _ later).trans (flatMap_append_perm _ _ _)
    | false =>
      have step : (secretShapes.zip resume).flatMap (fun entry =>
          ownPass entry.1 (first :: rest) start (entry.2 - start)) =
            (secretShapes.zip resume).flatMap fun entry =>
              ownPass entry.1 rest (start + 1) (entry.2 - (start + 1)) := by
        apply flatMap_congr
        intro entry member
        exact ownPass_unopened (of_mem_zip member).1 opens rest start entry.2
      rw [if_neg Bool.false_ne_true, step]
      exact ih (start + 1) resume

variable {start : Nat}

theorem leads_of_mem_ownPass {passed : Nat} {span : SecretSpan}
    (hit : span ∈ ownPass shape rest start passed) :
    ∃ gap, span.start = start + gap ∧ leads shape (rest.drop gap) = true ∧
      shapeHit shape (rest.drop gap) span.start = some span := by
  induction rest generalizing start passed with
  | nil => cases hit
  | cons first rest ih =>
    have later : ∀ passed, span ∈ ownPass shape rest (start + 1) passed →
        ∃ gap, span.start = start + gap ∧ leads shape ((first :: rest).drop gap) = true ∧
          shapeHit shape ((first :: rest).drop gap) span.start = some span := by
      intro passed further
      obtain ⟨gap, placed, opened, made⟩ := ih further
      exact ⟨gap + 1, by omega, opened, made⟩
    cases passed with
    | succ passed => exact later passed hit
    | zero =>
      rw [ownPass] at hit
      split at hit
      · next opened =>
          rcases mem_append.mp hit with here | further
          · rw [Option.mem_toList] at here
            have begins : span.start = start := by
              simp only [shapeHit] at here
              split at here
              · cases here
                rfl
              · cases here
            exact ⟨0, begins, opened, by rw [begins]; exact here⟩
          · exact later _ further
      · exact later 0 hit

variable {bytes : Bytes}

theorem ownHits_unique {first second : SecretSpan}
    (one : first ∈ secretShapes.flatMap fun shape => ownPass shape bytes 0 0)
    (other : second ∈ secretShapes.flatMap fun shape => ownPass shape bytes 0 0)
    (same : first.start = second.start) : first = second := by
  obtain ⟨shape, listed, hit⟩ := mem_flatMap.mp one
  obtain ⟨shape', listed', hit'⟩ := mem_flatMap.mp other
  obtain ⟨gap, placed, opened, made⟩ := leads_of_mem_ownPass hit
  obtain ⟨gap', placed', opened', made'⟩ := leads_of_mem_ownPass hit'
  have gaps : gap' = gap := by omega
  rw [gaps] at opened' made'
  have opening := (leads_iff listed).mp opened
  have opening' := (leads_iff listed').mp opened'
  have shapes : shape = shape' := by
    rcases prefix_or_prefix_of_prefix opening opening' with shorter | shorter
    · exact (secretShapes_apart shape listed).2 shape' listed' shorter
    · exact ((secretShapes_apart shape' listed').2 shape listed shorter).symm
  rw [shapes, same, made'] at made
  exact (Option.some.inj made).symm

/-! ### The order of the spans -/

theorem inOrder_congr {first second : List SecretSpan} (perm : first.Perm second)
    (apart : ∀ one ∈ second, ∀ other ∈ second, one.start = other.start → one = other) :
    inOrder first = inOrder second := by
  have arranged : ∀ spans, (inOrder spans).Perm spans := fun spans =>
    perm_insertionSort (fun one other : SecretSpan => one.le other) spans
  have sorted := ((arranged first).trans perm).trans (arranged second).symm
  refine List.Perm.eq_of_pairwise ?_ (inOrder_pairwise first) (inOrder_pairwise second) sorted
  intro one other member member' before after
  simp only [SecretSpan.le, Bool.or_eq_true, Bool.and_eq_true, decide_eq_true_eq] at before after
  exact apart one (perm.mem_iff.mp (mem_inOrder.mp member)) other (mem_inOrder.mp member')
    (by omega)

theorem findShapeHits_eq (bytes : Bytes) : findShapeHits bytes = ownHits bytes := by
  have found := shapeHitsFrom_perm bytes 0 (secretShapes.map fun _ => 0)
  have each : (secretShapes.zip (secretShapes.map fun _ => 0)).flatMap (fun entry =>
      ownPass entry.1 bytes 0 (entry.2 - 0)) =
        secretShapes.flatMap fun shape => ownPass shape bytes 0 0 := by
    rfl
  rw [each] at found
  exact inOrder_congr found fun one member other member' => ownHits_unique member member'

/-! ### The token runs -/

/-- Where the cursor over the claimed spans stands: what it passed starts before `start`, and its
reach is the furthest end of that. -/
structure Claimed.At (hits : List SecretSpan) (claimed : Claimed) (start : Nat) : Prop where
  passed : ∃ passed, hits = passed ++ claimed.spans ∧ (∀ hit ∈ passed, hit.start < start) ∧
    ∀ n, n < claimed.reach ↔ ∃ hit ∈ passed, n < hit.stop

theorem Claimed.at_start (hits : List SecretSpan) (start : Nat) :
    Claimed.At hits ⟨hits, 0⟩ start :=
  ⟨[], rfl, fun _ member => absurd member not_mem_nil, fun _ =>
    ⟨fun impossible => absurd impossible (Nat.not_lt_zero _), fun ⟨_, member, _⟩ =>
      absurd member not_mem_nil⟩⟩

variable {hits : List SecretSpan} {claimed : Claimed}

theorem Claimed.At.later {after : Nat} (stands : Claimed.At hits claimed start)
    (onward : start ≤ after) : Claimed.At hits claimed after := by
  obtain ⟨passed, whole, before, reach⟩ := stands.passed
  exact ⟨passed, whole, fun hit member => Nat.lt_of_lt_of_le (before hit member) onward, reach⟩

variable {spans : List SecretSpan}

theorem Claimed.At.pass {reach : Nat}
    (stands : Claimed.At hits ⟨spans, reach⟩ start) :
    Claimed.At hits (Claimed.pass start spans reach) start ∧
      ∀ hit ∈ (Claimed.pass start spans reach).spans.head?, start ≤ hit.start := by
  induction spans generalizing reach with
  | nil => exact ⟨stands, fun _ member => absurd member (Option.not_mem_none _)⟩
  | cons span spans ih =>
    rw [Claimed.pass]
    split
    · next before =>
        obtain ⟨passed, whole, started, reaches⟩ := stands.passed
        apply ih
        refine ⟨passed ++ [span], ?_, ?_, ?_⟩
        · rw [whole, append_assoc]
          rfl
        · intro hit member
          rcases mem_append.mp member with earlier | here
          · exact started hit earlier
          · rw [mem_singleton.mp here]
            exact before
        · intro n
          have either : n < max reach span.stop ↔ n < reach ∨ n < span.stop := by omega
          rw [either, reaches]
          constructor
          · rintro (⟨hit, member, reached⟩ | reached)
            · exact ⟨hit, mem_append_left _ member, reached⟩
            · exact ⟨span, mem_append_right _ (mem_singleton.mpr rfl), reached⟩
          · intro ⟨hit, member, reached⟩
            rcases mem_append.mp member with earlier | here
            · exact Or.inl ⟨hit, earlier, reached⟩
            · rw [mem_singleton.mp here] at reached
              exact Or.inr reached
    · next onward =>
        refine ⟨stands, fun hit member => ?_⟩
        cases member
        exact Nat.le_of_not_lt onward

theorem any_takeWhile (stop : Nat) (test : SecretSpan → Bool)
    (sorted : spans.Pairwise fun first second => first.start ≤ second.start) :
    (spans.takeWhile fun span => span.start < stop).any test =
      spans.any fun span => span.start < stop && test span := by
  induction spans with
  | nil => rfl
  | cons span spans ih =>
    obtain ⟨ahead, sorted⟩ := pairwise_cons.mp sorted
    rw [takeWhile_cons, any_cons]
    by_cases before : span.start < stop
    · simp only [before, decide_true, if_true, any_cons, Bool.true_and, ih sorted]
    · have none_behind : (spans.any fun span => span.start < stop && test span) = false := by
        rw [any_eq_false]
        intro other member
        have onward := ahead other member
        simp only [Bool.and_eq_true, decide_eq_true_eq, not_and]
        omega
      simp only [before, decide_false, Bool.false_eq_true, if_false, any_nil, Bool.false_and,
        none_behind, Bool.or_self]

theorem Claimed.At.overlaps {stop : Nat} (stands : Claimed.At hits claimed start)
    (wide : start < stop) (sorted : hits.Pairwise fun first second => first.start ≤ second.start) :
    (claimed.overlaps start stop).1 = overlapped hits start stop ∧
      Claimed.At hits (claimed.overlaps start stop).2 start := by
  have moved := (Claimed.At.pass stands).1
  refine ⟨?_, moved⟩
  obtain ⟨passed, whole, before, reach⟩ := moved.passed
  have rest_sorted := (pairwise_append.mp (whole ▸ sorted)).2.1
  have reached : decide ((Claimed.pass start claimed.spans claimed.reach).reach > start) =
      passed.any fun hit => hit.start < stop && hit.stop > start := by
    rw [Bool.eq_iff_iff, decide_eq_true_eq, any_eq_true]
    refine (reach start).trans ⟨fun ⟨hit, member, after⟩ => ⟨hit, member, ?_⟩,
      fun ⟨hit, member, meets⟩ => ⟨hit, member, ?_⟩⟩
    · have ahead := before hit member
      rw [Bool.and_eq_true, decide_eq_true_eq, decide_eq_true_eq]
      exact ⟨Nat.lt_trans ahead wide, after⟩
    · rw [Bool.and_eq_true, decide_eq_true_eq, decide_eq_true_eq] at meets
      exact meets.2
  rw [Claimed.overlaps, overlapped, whole, any_append]
  simp only [any_takeWhile stop _ rest_sorted, reached]

theorem runsFrom_eq {at_ : Nat}
    (sorted : hits.Pairwise fun first second => first.start ≤ second.start)
    (stands : Claimed.At hits claimed at_) :
    runsFrom bytes rest at_ claimed =
      (runs tokenByte false rest at_).filterMap (tokenSecret bytes hits) := by
  induction size : rest.length using Nat.strongRecOn generalizing rest at_ claimed with
  | ind n ih =>
    cases rest with
    | nil =>
      rw [runsFrom]
      rfl
    | cons first tail =>
      rw [runsFrom]
      cases token : tokenByte first with
      | false =>
        rw [if_neg Bool.false_ne_true, Runs.runs_refused token]
        exact ih tail.length (by rw [← size]; exact Nat.lt_succ_self _)
          (stands.later (Nat.le_succ _)) rfl
      | true =>
        have beyond : (first :: tail).drop ((first :: tail).takeWhile tokenByte).length =
            (first :: tail).dropWhile tokenByte := by
          have parts := takeWhile_append_dropWhile (p := tokenByte) (l := first :: tail)
          exact (congrArg (List.drop _) parts).symm.trans drop_left
        have some_run : 0 < ((first :: tail).takeWhile tokenByte).length := by
          rw [takeWhile_cons, if_pos token]
          exact Nat.succ_pos _
        have shorter : ((first :: tail).dropWhile tokenByte).length < n := by
          rw [← beyond, length_drop, ← size, length_cons]
          omega
        rw [if_pos rfl, Runs.runs_accepted token]
        simp only [beyond]
        generalize (first :: tail).takeWhile tokenByte = run at some_run
        have later : ∀ claimed, Claimed.At hits claimed at_ →
            runsFrom bytes ((first :: tail).dropWhile tokenByte) (at_ + run.length) claimed =
              (runs tokenByte false ((first :: tail).dropWhile tokenByte)
                (at_ + run.length)).filterMap (tokenSecret bytes hits) := fun claimed here =>
          ih _ shorter (here.later (Nat.le_add_right _ _)) rfl
        obtain ⟨asked, moved⟩ := stands.overlaps (Nat.lt_add_of_pos_right some_run) sorted
        have answered : tokenSecret bytes hits (at_, run) =
            if run.length ≥ entropySpanMinBytes then
              if !(claimed.overlaps at_ (at_ + run.length)).1 &&
                  ((mixedAlphabet run && entropyPasses run) || isLabelledHexSecret bytes run at_)
                then some ⟨at_, run.length, none⟩ else none
            else none := by
          rw [asked, tokenSecret, readsAsSecret]
          by_cases long : run.length ≥ entropySpanMinBytes
          · simp only [long, decide_true, Bool.true_and, if_true, Bool.and_comm]
          · simp only [long, decide_false, Bool.false_and, Bool.false_eq_true, if_false]
        rw [filterMap_cons, answered]
        split
        · split
          · rw [later _ moved]
          · rw [later _ moved]
        · exact later claimed stands

theorem scan_eq (bytes : Bytes) : scan bytes = reference bytes := by
  have sorted : (ownHits bytes).Pairwise fun first second => first.start ≤ second.start := by
    apply (inOrder_pairwise _).imp
    intro first second ordered
    simp only [SecretSpan.le, Bool.or_eq_true, Bool.and_eq_true, decide_eq_true_eq] at ordered
    omega
  rw [scan, reference, findShapeHits_eq, runsFrom_eq sorted (Claimed.at_start _ 0)]

/-- The one-pass scan is the plain one, and a maximal run of token bytes is what the plain one
holds against the hits. Every span it reports stands in the text and is not empty. -/
theorem scan_eq_reference (bytes : Bytes) :
    scan bytes = reference bytes ∧
      (∀ start run, (start, run) ∈ runs tokenByte false bytes 0 ↔
        Runs.IsRun tokenByte bytes start run) ∧
      ∀ span ∈ scan bytes, 0 < span.len ∧ span.start + span.len ≤ bytes.length := by
  refine ⟨scan_eq bytes, fun _ _ => Runs.mem_runs, fun span reported => ?_⟩
  have placed := scan_placed reported
  exact ⟨placed.some_bytes, placed.inside⟩

end Secret

end Sprawling
