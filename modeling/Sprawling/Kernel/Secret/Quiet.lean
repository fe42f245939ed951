import Sprawling.Kernel.Secret.Reference

namespace Sprawling

open List Runs

namespace Secret

open Runs (runs)

/-- No shape's leading bytes stand before enough of its alphabet. -/
def ShapeFree (bytes : Bytes) : Prop :=
  ∀ shape ∈ secretShapes, ∀ i, leads shape (bytes.drop i) = true →
    shapeHit shape (bytes.drop i) i = none

/-- No maximal token run reads as a secret. -/
def RunFree (bytes : Bytes) : Prop :=
  ∀ found ∈ runs tokenByte false bytes 0, readsAsSecret bytes found.2 found.1 = false

variable {shape : SecretShape} {rest : Bytes} {start : Nat}

theorem shapeHit_eq_none :
    shapeHit shape rest start = none ↔
      (Ascii.bytes shape.leading).length +
        ((rest.drop (Ascii.bytes shape.leading).length).takeWhile
          (charsetAdmits shape.charset)).length < shape.len.1 := by
  simp only [shapeHit, ite_eq_right_iff, reduceCtorEq, imp_false, ge_iff_le, Nat.not_le]

theorem secretShapes_bordered : ∀ shape ∈ secretShapes,
    ∀ j < (Ascii.bytes shape.leading).length, 0 < j →
      ((Ascii.bytes shape.leading).drop j).isPrefixOf (Ascii.bytes shape.leading) = true →
        ∀ byte ∈ (Ascii.bytes shape.leading).drop ((Ascii.bytes shape.leading).length - j),
          charsetAdmits shape.charset byte = true := by
  decide +kernel

theorem shapeHit_inside (listed : shape ∈ secretShapes) {j : Nat}
    (opens : leads shape rest = true) (again : leads shape (rest.drop j) = true)
    (some_bytes : 0 < j) (inside : j < (Ascii.bytes shape.leading).length)
    (short : shapeHit shape rest start = none) (after : Nat) :
    shapeHit shape (rest.drop j) after = none := by
  obtain ⟨tail, joined⟩ := (leads_iff listed).mp opens
  obtain ⟨tail', joined'⟩ := (leads_iff listed).mp again
  rw [shapeHit_eq_none] at short ⊢
  generalize leadingIs : Ascii.bytes shape.leading = leading at *
  have shifted : rest.drop j = leading.drop j ++ tail := by
    rw [← joined, drop_append_of_le_length (Nat.le_of_lt inside)]
  have border : (leading.drop j).isPrefixOf leading = true := by
    rw [List.isPrefixOf_iff_prefix]
    apply @prefix_of_prefix_length_le _ (leading.drop j) leading (rest.drop j)
    · exact ⟨tail, shifted.symm⟩
    · exact ⟨tail', joined'⟩
    · rw [length_drop]
      exact Nat.sub_le _ _
  have admitted : ∀ byte ∈ leading.drop (leading.length - j), charsetAdmits shape.charset byte = true := by
    have known := secretShapes_bordered shape listed j
    rw [leadingIs] at known
    exact known inside some_bytes border
  have body : rest.drop leading.length = leading.drop (leading.length - j) ++ tail' := by
    have counted : leading.length = j + (leading.length - j) := by omega
    calc rest.drop leading.length
        = (rest.drop j).drop (leading.length - j) := by rw [drop_drop, ← counted]
      _ = leading.drop (leading.length - j) ++ tail' := by
        rw [← joined', drop_append_of_le_length (Nat.sub_le _ _)]
  have behind : (rest.drop j).drop leading.length = tail' := by rw [← joined', drop_left]
  rw [body, takeWhile_append_of_pos admitted, length_append] at short
  rw [behind]
  omega

theorem shapeHit_start (shape : SecretShape) (rest : Bytes) (start after : Nat) :
    shapeHit shape rest start = none ↔ shapeHit shape rest after = none :=
  shapeHit_eq_none.trans shapeHit_eq_none.symm

theorem not_leads_nil (shape : SecretShape) : leads shape [] = false := by
  rw [leads]
  cases Ascii.bytes shape.leading <;> rfl

/-- Where a shape's leading bytes stand before enough of its alphabet, its own pass reports a hit
whose leading bytes reach there. -/
theorem ownPass_reaches (listed : shape ∈ secretShapes) {passed i : Nat} (ahead : passed ≤ i)
    (opens : leads shape (rest.drop i) = true) (long : shapeHit shape (rest.drop i) i ≠ none) :
    ∃ hit ∈ ownPass shape rest start passed, hit.provider = some shape.provider ∧
      hit.start ≤ start + i ∧ start + i < hit.start + (Ascii.bytes shape.leading).length := by
  induction rest generalizing start passed i with
  | nil =>
    rw [drop_nil, not_leads_nil] at opens
    cases opens
  | cons first rest ih =>
    have later : ∀ passed, passed + 1 ≤ i → ∃ hit ∈ ownPass shape rest (start + 1) passed,
        hit.provider = some shape.provider ∧ hit.start ≤ start + i ∧
          start + i < hit.start + (Ascii.bytes shape.leading).length := by
      intro passed behind
      obtain ⟨i, rfl⟩ := Nat.exists_eq_add_of_le' (Nat.le_trans (Nat.le_add_left 1 passed) behind)
      obtain ⟨hit, member, reached⟩ := @ih (start + 1) passed i (Nat.le_of_succ_le_succ behind) opens
        (mt (shapeHit_start _ _ _ _).mp long)
      exact ⟨hit, member, reached.1, by omega, by omega⟩
    cases passed with
    | succ passed => exact later passed ahead
    | zero =>
      rw [ownPass]
      split
      · next here =>
          rcases Nat.lt_or_ge i (Ascii.bytes shape.leading).length with within | beyond
          · -- A match that begins within these leading bytes is no longer than theirs.
            have found : shapeHit shape (first :: rest) start ≠ none := by
              intro short
              cases i with
              | zero => exact long ((shapeHit_start _ _ _ _).mp short)
              | succ i => exact long (shapeHit_inside listed here opens (Nat.succ_pos _) within short _)
            obtain ⟨hit, made⟩ := Option.ne_none_iff_exists'.mp found
            have placed : hit.start = start ∧ hit.provider = some shape.provider := by
              simp only [shapeHit, Option.ite_none_right_eq_some, Option.some.injEq] at made
              rw [← made.2]
              exact ⟨rfl, rfl⟩
            refine ⟨hit, mem_append_left _ (Option.mem_toList.mpr made), placed.2, ?_, ?_⟩
            · omega
            · omega
          · obtain ⟨hit, member, reached⟩ := later ((Ascii.bytes shape.leading).length - 1) (by
              have some_bytes := length_pos_of_ne_nil (secretShapes_apart shape listed).1
              omega)
            exact ⟨hit, mem_append_right _ member, reached⟩
      · next closed =>
          cases i with
          | zero => exact absurd opens closed
          | succ i => exact later 0 (Nat.succ_pos _)

theorem ownPass_eq_nil (listed : shape ∈ secretShapes) :
    ownPass shape rest start 0 = [] ↔
      ∀ i, leads shape (rest.drop i) = true → shapeHit shape (rest.drop i) i = none := by
  constructor
  · intro nothing i opens
    by_contra long
    obtain ⟨hit, member, -⟩ := @ownPass_reaches shape rest start listed 0 i (Nat.zero_le _) opens long
    rw [nothing] at member
    cases member
  · intro short
    rw [eq_nil_iff_forall_not_mem]
    intro hit member
    obtain ⟨gap, -, opens, made⟩ := leads_of_mem_ownPass member
    rw [(shapeHit_start _ _ _ _).mp (short gap opens)] at made
    cases made

theorem inOrder_eq_nil {spans : List SecretSpan} : inOrder spans = [] ↔ spans = [] := by
  rw [eq_nil_iff_forall_not_mem, eq_nil_iff_forall_not_mem]
  exact forall_congr' fun span => not_congr mem_inOrder

theorem scan_eq_nil {bytes : Bytes} : scan bytes = [] ↔ ShapeFree bytes ∧ RunFree bytes := by
  have hits : ownHits bytes = [] ↔ ShapeFree bytes := by
    rw [ownHits, inOrder_eq_nil, flatMap_eq_nil_iff]
    refine forall_congr' fun shape => forall_congr' fun listed => ?_
    exact ownPass_eq_nil listed
  rw [scan_eq, reference, inOrder_eq_nil, append_eq_nil_iff, hits]
  refine and_congr_right fun free => ?_
  rw [hits.mpr free, filterMap_eq_nil_iff]
  refine forall_congr' fun found => forall_congr' fun _ => ?_
  cases secret : readsAsSecret bytes found.2 found.1 <;>
    simp [tokenSecret, overlapped, secret]

theorem mem_scan_of_ownPass (listed : shape ∈ secretShapes) {bytes : Bytes} {span : SecretSpan}
    (hit : span ∈ ownPass shape bytes 0 0) : span ∈ scan bytes := by
  rw [scan_eq, reference, mem_inOrder]
  exact mem_append_left _ (mem_inOrder.mpr (mem_flatMap.mpr ⟨shape, listed, hit⟩))

/-- A token run that reads as a secret is reported unless it overlaps a reported span. -/
theorem mem_scan_of_run {bytes run : Bytes} (found : Runs.IsRun tokenByte bytes start run)
    (secret : readsAsSecret bytes run start = true)
    (apart : overlapped (scan bytes) start (start + run.length) = false) :
    ⟨start, run.length, none⟩ ∈ scan bytes := by
  have hits : overlapped (ownHits bytes) start (start + run.length) = false := by
    rw [overlapped, any_eq_false] at apart ⊢
    intro hit member
    apply apart
    rw [scan_eq, reference, mem_inOrder]
    exact mem_append_left _ member
  rw [scan_eq, reference, mem_inOrder]
  refine mem_append_right _ (mem_filterMap.mpr ⟨_, mem_runs.mpr found, ?_⟩)
  rw [tokenSecret, secret, hits]
  rfl

/-! ### What a colon divides -/

def colon : UInt8 := 58

theorem charsetAdmits_colon (charset : SecretCharset) : charsetAdmits charset colon = false := by
  cases charset <;> decide

theorem leading_without_colon : ∀ shape ∈ secretShapes, colon ∉ Ascii.bytes shape.leading := by
  decide +kernel

variable {first : Bytes}

theorem prefix_before_colon {leading second : Bytes} (plain : colon ∉ leading) :
    leading <+: first ++ colon :: second ↔ leading <+: first := by
  constructor
  · intro opens
    rcases prefix_or_prefix_of_prefix opens (prefix_append first _) with short | long
    · exact short
    · obtain ⟨tail, rfl⟩ := long
      rw [prefix_append_right_inj] at opens
      cases tail with
      | nil =>
        exact ⟨[], by simp⟩
      | cons byte tail =>
        obtain ⟨rfl, -⟩ := cons_prefix_cons.mp opens
        exact absurd (mem_append_right _ mem_cons_self) plain
  · exact fun opens => opens.trans (prefix_append _ _)

theorem leads_before_colon (listed : shape ∈ secretShapes) (first second : Bytes) :
    leads shape (first ++ colon :: second) = leads shape first := by
  rw [Bool.eq_iff_iff, leads_iff listed, leads_iff listed,
    prefix_before_colon (leading_without_colon shape listed)]

theorem shapeHit_before_colon (listed : shape ∈ secretShapes) (opens : leads shape first = true)
    (second : Bytes) (start : Nat) :
    shapeHit shape (first ++ colon :: second) start = shapeHit shape first start := by
  have long := ((leads_iff listed).mp opens).length_le
  simp only [shapeHit, drop_append_of_le_length long,
    takeWhile_before (charsetAdmits_colon shape.charset)]

/-- What the shapes make of two texts with a colon between them is what they make of each. -/
theorem shapeFree_append {second : Bytes} :
    ShapeFree (first ++ colon :: second) ↔ ShapeFree first ∧ ShapeFree second := by
  have before : ∀ i ≤ first.length, (first ++ colon :: second).drop i =
      first.drop i ++ colon :: second := fun i inside => drop_append_of_le_length inside
  have behind : ∀ i, (first ++ colon :: second).drop (first.length + 1 + i) = second.drop i := by
    intro i
    rw [← drop_drop, drop_append, drop_eq_nil_of_le (Nat.le_succ _)]
    rw [Nat.add_sub_cancel_left, nil_append, drop_succ_cons, drop_zero]
  constructor
  · intro free
    refine ⟨fun shape listed i opens => ?_, fun shape listed i opens => ?_⟩
    · rcases Nat.le_total i first.length with inside | beyond
      · have known := free shape listed i
        rw [before i inside, leads_before_colon listed, shapeHit_before_colon listed opens] at known
        exact known opens
      · rw [drop_eq_nil_of_le beyond, not_leads_nil] at opens
        cases opens
    · have known := free shape listed (first.length + 1 + i)
      rw [behind, shapeHit_start _ _ _ i] at known
      exact known opens
  · intro ⟨free, later⟩ shape listed i opens
    rcases Nat.lt_or_ge first.length i with beyond | inside
    · obtain ⟨j, rfl⟩ := Nat.exists_eq_add_of_le (Nat.succ_le_of_lt beyond)
      rw [behind] at opens ⊢
      exact (shapeHit_start _ _ _ _).mp (later shape listed j opens)
    · rw [before i inside] at opens ⊢
      rw [leads_before_colon listed] at opens
      rw [shapeHit_before_colon listed opens]
      exact free shape listed i opens

theorem dropWhile_before {α : Type} {p : α → Bool} {item : α} (refused : p item = false)
    (first second : List α) :
    (first ++ item :: second).dropWhile p = first.dropWhile p ++ item :: second := by
  induction first with
  | nil =>
    rw [nil_append, dropWhile_cons, refused, if_neg Bool.false_ne_true]
    rfl
  | cons other first ih =>
    rw [cons_append, dropWhile_cons, dropWhile_cons, ih]
    split <;> rfl

/-- A blank or a quote. -/
def isPadding (byte : UInt8) : Bool :=
  Ascii.isWhitespace byte || byte = Ascii.byte '"' || byte = Ascii.byte '\''

/-- A byte of a label. -/
def isNameByte (byte : UInt8) : Bool :=
  Ascii.isAlphanumeric byte || byte = Ascii.byte '_' || byte = Ascii.byte '-'
    || byte = Ascii.byte '.'

/-- The label a value follows, read backwards. -/
def labelBehind (backwards : Bytes) : Option Bytes :=
  match backwards.dropWhile isPadding with
  | [] => none
  | separator :: behind =>
    if separator = Ascii.byte '=' ∨ separator = Ascii.byte ':' then
      let name := ((behind.dropWhile isPadding).takeWhile isNameByte).reverse
      if name.isEmpty then none else some name
    else none

theorem labelBefore_eq (head : Bytes) : labelBefore head = labelBehind head.reverse := by
  have unpadded : ∀ head : Bytes, (withoutPadding head).reverse = head.reverse.dropWhile isPadding :=
    fun head => reverse_reverse _
  rw [labelBefore, labelBehind, unpadded]
  cases head.reverse.dropWhile isPadding with
  | nil => rfl
  | cons separator behind =>
    simp only [unpadded, reverse_reverse]
    rfl

theorem labelBehind_before (backwards beyond : Bytes) :
    labelBehind (backwards ++ Ascii.byte 'r' :: colon :: beyond) =
      labelBehind (backwards ++ [Ascii.byte 'r']) := by
  have kept : isPadding (Ascii.byte 'r') = false := by decide
  have ended : isNameByte colon = false := by decide
  have inert : ¬ (Ascii.byte 'r' = Ascii.byte '=' ∨ Ascii.byte 'r' = Ascii.byte ':') := by decide
  rw [labelBehind, labelBehind, dropWhile_before kept, dropWhile_before kept]
  cases backwards.dropWhile isPadding with
  | nil => simp only [nil_append, if_neg inert]
  | cons separator behind =>
    have name : ((behind ++ Ascii.byte 'r' :: colon :: beyond).dropWhile isPadding).takeWhile
          isNameByte =
        ((behind ++ [Ascii.byte 'r']).dropWhile isPadding).takeWhile isNameByte := by
      rw [dropWhile_before kept, dropWhile_before kept,
        ← takeWhile_before ended (behind.dropWhile isPadding ++ [Ascii.byte 'r']) beyond,
        append_assoc]
      rfl
    simp only [cons_append, name]

theorem labelBefore_behind_colon (first text : Bytes) :
    labelBefore (first ++ colon :: Ascii.byte 'r' :: text) =
      labelBefore (Ascii.byte 'r' :: text) := by
  have whole : (first ++ colon :: Ascii.byte 'r' :: text).reverse =
      text.reverse ++ Ascii.byte 'r' :: colon :: first.reverse := by
    simp only [reverse_append, reverse_cons, append_assoc, cons_append, nil_append]
  rw [labelBefore_eq, labelBefore_eq, whole, labelBehind_before, reverse_cons]

theorem readsAsSecret_behind_colon (first text run : Bytes)
    (foundAt : Runs.IsRun tokenByte (Ascii.byte 'r' :: text) start run) :
    readsAsSecret (first ++ colon :: Ascii.byte 'r' :: text) run (first.length + 1 + start) =
      readsAsSecret (Ascii.byte 'r' :: text) run start := by
  have labelled : isLabelledHexSecret (first ++ colon :: Ascii.byte 'r' :: text) run
      (first.length + 1 + start) = isLabelledHexSecret (Ascii.byte 'r' :: text) run start := by
    rw [isLabelledHexSecret, isLabelledHexSecret]
    cases start with
    | zero =>
      -- The first run holds the byte behind the colon, which is no hex digit.
      obtain ⟨before, after, whole, length, -, -⟩ := foundAt.begins
      rw [length_eq_zero_iff.mp length, nil_append] at whole
      have hexless : run.all Ascii.isHexDigit = false := by
        cases run with
        | nil => exact absurd rfl foundAt.some_items
        | cons byte run =>
          obtain ⟨rfl, -⟩ := List.cons.inj whole
          rfl
      rw [hexless, Bool.and_false, Bool.false_and]
      rfl
    | succ start =>
      have taken : (first ++ colon :: Ascii.byte 'r' :: text).take (first.length + 1 + (start + 1)) =
          first ++ colon :: Ascii.byte 'r' :: text.take start := by
        rw [take_append, take_of_length_le (by omega)]
        have counted : first.length + 1 + (start + 1) - first.length = start + 2 := by omega
        rw [counted]
        rfl
      rw [taken, labelBefore_behind_colon]
      rfl
  rw [readsAsSecret, readsAsSecret, labelled]

theorem readsAsSecret_before (first second run : Bytes) (inside : start ≤ first.length) :
    readsAsSecret (first ++ second) run start = readsAsSecret first run start := by
  rw [readsAsSecret, readsAsSecret, isLabelledHexSecret, isLabelledHexSecret,
    take_append_of_le_length inside]

theorem runs_shift {α : Type} {p : α → Bool} (inside : Bool) (items : List α) (at_ shift : Nat) :
    Runs.runs p inside items (shift + at_) =
      (Runs.runs p inside items at_).map fun found => (shift + found.1, found.2) := by
  induction items generalizing inside at_ with
  | nil => rfl
  | cons item items ih =>
    rw [Runs.runs, Runs.runs, Nat.add_assoc, ih, ih]
    split <;> rfl

/-- What the runs of two texts read as, with a colon between them, is what they read as in each. -/
theorem runFree_append {text : Bytes} :
    RunFree (first ++ colon :: Ascii.byte 'r' :: text) ↔
      RunFree first ∧ RunFree (Ascii.byte 'r' :: text) := by
  have refused : tokenByte colon = false := by decide
  have divided := runs_append refused false first (Ascii.byte 'r' :: text) 0
  have placed : 0 + first.length + 1 = first.length + 1 + 0 := by omega
  rw [placed, runs_shift] at divided
  rw [RunFree, divided, forall_mem_append, forall_mem_map]
  refine and_congr ?_ ?_
  · refine forall_congr' fun found => forall_congr' fun member => ?_
    obtain ⟨before, after, whole, length, -, -⟩ := (mem_runs.mp member).begins
    rw [readsAsSecret_before]
    rw [whole, ← length, length_append]
    exact Nat.le_add_right _ _
  · refine forall_congr' fun found => forall_congr' fun member => ?_
    rw [readsAsSecret_behind_colon first text found.2 (mem_runs.mp member)]

end Secret

end Sprawling
