import Sprawling.Base.Spans
import Sprawling.Base.Utf8
import Sprawling.Kernel.Event
import Mathlib.Data.List.Sort
import Mathlib.Data.List.TakeWhile

namespace Sprawling

open List

namespace Ascii

def isUpper (byte : UInt8) : Bool := 65 ≤ byte.toNat && byte.toNat ≤ 90

def isLower (byte : UInt8) : Bool := 97 ≤ byte.toNat && byte.toNat ≤ 122

def isDigit (byte : UInt8) : Bool := 48 ≤ byte.toNat && byte.toNat ≤ 57

def isAlphanumeric (byte : UInt8) : Bool := isUpper byte || isLower byte || isDigit byte

def isHexDigit (byte : UInt8) : Bool :=
  isDigit byte || (65 ≤ byte.toNat && byte.toNat ≤ 70) || (97 ≤ byte.toNat && byte.toNat ≤ 102)

def isWhitespace (byte : UInt8) : Bool :=
  byte = 32 || byte = 9 || byte = 10 || byte = 12 || byte = 13

def toLower (byte : UInt8) : UInt8 := if isUpper byte then byte + 32 else byte

def byte (c : Char) : UInt8 := UInt8.ofNat c.toNat

def bytes (text : String) : Bytes := text.toList.map byte

end Ascii

/-- One place a secret stands, and whose shape it has. -/
structure SecretSpan where
  start : Nat
  len : Nat
  provider : Option String
deriving DecidableEq

namespace SecretSpan

def stop (span : SecretSpan) : Nat := span.start + span.len

/-- In order of start, then of length. -/
def le (first second : SecretSpan) : Bool :=
  first.start < second.start || (first.start = second.start && first.len ≤ second.len)

end SecretSpan

/-- Character sets that public token formats draw from. -/
inductive SecretCharset where
  | base62
  | base64Url
  | hexLower
  | upperBase36
deriving DecidableEq

/-- A provider's published token format; lengths count the leading characters. -/
structure SecretShape where
  provider : String
  leading : String
  charset : SecretCharset
  len : Nat × Nat
deriving DecidableEq

def secretShapes : List SecretShape :=
  [⟨"anthropic", "sk-ant-", .base64Url, (24, 120)⟩,
    ⟨"openai", "sk-proj-", .base64Url, (24, 200)⟩,
    ⟨"github", "ghp_", .base62, (36, 40)⟩,
    ⟨"github-oauth", "gho_", .base62, (36, 40)⟩,
    ⟨"aws", "AKIA", .upperBase36, (16, 16)⟩,
    ⟨"gitlab", "glpat-", .base64Url, (20, 22)⟩,
    ⟨"slack", "xoxb-", .base62, (24, 80)⟩,
    ⟨"google", "AIza", .base64Url, (35, 35)⟩,
    ⟨"openrouter", "sk-or-v1-", .hexLower, (40, 80)⟩,
    ⟨"zenmux", "sk-ai-v1-", .hexLower, (40, 80)⟩,
    ⟨"groq", "gsk_", .base62, (32, 96)⟩]

/-- Words that make a name read as a credential's. -/
def credentialNameMarkers : List String :=
  ["secret", "token", "key", "password", "passwd", "credential", "auth", "session", "cookie",
    "private", "signature"]

namespace Secret

def charsetAdmits (charset : SecretCharset) (byte : UInt8) : Bool :=
  match charset with
  | .base62 => Ascii.isAlphanumeric byte
  | .base64Url =>
    Ascii.isAlphanumeric byte || byte = Ascii.byte '-' || byte = Ascii.byte '_'
      || byte = Ascii.byte '='
  | .hexLower => Ascii.isDigit byte || (97 ≤ byte.toNat && byte.toNat ≤ 102)
  | .upperBase36 => Ascii.isUpper byte || Ascii.isDigit byte

/-- The entropy detector's alphabet. -/
def tokenByte (byte : UInt8) : Bool :=
  Ascii.isAlphanumeric byte || byte = Ascii.byte '-' || byte = Ascii.byte '_' || byte = Ascii.byte '+'
    || byte = Ascii.byte '/'

def mixedAlphabet (bytes : Bytes) : Bool :=
  bytes.any Ascii.isUpper && bytes.any Ascii.isLower && bytes.any Ascii.isDigit

def entropySpanMinBytes : Nat := 20

def secretEntropyMin : Nat × Nat := (7, 2)

def u128Max : Nat := 2 ^ 128 - 1

/-- One turn of the logarithm: the mantissa squared, and the bit it gives. -/
def log2Turn (state : Nat × Nat) : Nat × Nat :=
  let y := min (state.1 * state.1) u128Max >>> 32
  if y ≥ 2 <<< 32 then (y >>> 1, state.2 * 2 + 1) else (y, state.2 * 2)

/-- The binary logarithm with ten fractional bits. -/
def log2Q10 (x : Nat) : Nat :=
  if x = 0 then 0
  else
    let mantissa := (x <<< 32) >>> x.log2
    (x.log2 <<< 10) ||| (log2Turn^[10] (mantissa, 0)).2

def saturatingMul (a b : Nat) : Nat := min (a * b) u64Max

/-- Shannon entropy a character, in thousandths of a bit. -/
def entropyMillibitsPerChar (bytes : Bytes) : Nat :=
  let n := bytes.length
  if n > u64Max ∨ n = 0 then 0
  else
    let logN := log2Q10 n
    let sum := (List.range 256).foldl
      (fun sum value =>
        let count := min (bytes.count (UInt8.ofNat value)) u64Max
        if count = 0 then sum else saturatingAdd sum (saturatingMul count (logN - log2Q10 count))) 0
    saturatingMul sum 1000 / 1024 / n

def entropyPasses (bytes : Bytes) : Bool :=
  saturatingMul (entropyMillibitsPerChar bytes) secretEntropyMin.2
    ≥ saturatingMul secretEntropyMin.1 1000

def contains (text part : Bytes) : Bool := text.tails.any part.isPrefixOf

def namesACredential (name : Bytes) : Bool :=
  credentialNameMarkers.any fun marker => contains (name.map Ascii.toLower) (Ascii.bytes marker)

def hexSpanMinBytes : Nat := 32

/-- The entropy floor of a hex run, in thousandths of a bit a character. -/
def hexEntropyMinMillibits : Nat := 3100

def withoutPadding (head : Bytes) : Bytes :=
  (head.reverse.dropWhile fun byte =>
    Ascii.isWhitespace byte || byte = Ascii.byte '"' || byte = Ascii.byte '\'').reverse

/-- The name a value follows: the name, optional blanks and quotes, one `=` or `:`, then optional
blanks and quotes up to the value. -/
def labelBefore (head : Bytes) : Option Bytes :=
  match (withoutPadding head).reverse with
  | [] => none
  | separator :: behind =>
    if separator = Ascii.byte '=' ∨ separator = Ascii.byte ':' then
      let name := ((withoutPadding behind.reverse).reverse.takeWhile fun byte =>
        Ascii.isAlphanumeric byte || byte = Ascii.byte '_' || byte = Ascii.byte '-'
          || byte = Ascii.byte '.').reverse
      if name.isEmpty then none else some name
    else none

/-- Whether a token run is a hex secret: long, pure hex, named as a credential, and random. -/
def isLabelledHexSecret (bytes run : Bytes) (start : Nat) : Bool :=
  run.length ≥ hexSpanMinBytes && run.all Ascii.isHexDigit
    && (labelBefore (bytes.take start)).any namesACredential
    && entropyMillibitsPerChar run ≥ hexEntropyMinMillibits

/-- Whether some shape starts with this byte. -/
def opensAShape (byte : UInt8) : Bool :=
  secretShapes.any fun shape => (Ascii.bytes shape.leading).head? = some byte

/-- What a shape makes of the bytes from `start`, and where it resumes. -/
def shapeAt (rest : Bytes) (start : Nat) (entry : SecretShape × Nat) : Option SecretSpan × Nat :=
  let (shape, next) := entry
  let leading := Ascii.bytes shape.leading
  if start < next || leading.isEmpty || !leading.isPrefixOf rest then (none, next)
  else
    let body := ((rest.drop leading.length).takeWhile (charsetAdmits shape.charset)).length
    let total := leading.length + body
    (if total ≥ shape.len.1 then some ⟨start, min total shape.len.2, some shape.provider⟩ else none,
      start + leading.length)

def shapeHitsFrom : Bytes → (start : Nat) → (resume : List Nat) → List SecretSpan
  | [], _, _ => []
  | first :: rest, start, resume =>
    if opensAShape first then
      let answers := (secretShapes.zip resume).map (shapeAt (first :: rest) start)
      answers.filterMap Prod.fst ++ shapeHitsFrom rest (start + 1) (answers.map Prod.snd)
    else shapeHitsFrom rest (start + 1) resume

def inOrder (spans : List SecretSpan) : List SecretSpan :=
  spans.insertionSort fun first second => first.le second

/-- The shape hits, sorted by start and length. -/
def findShapeHits (bytes : Bytes) : List SecretSpan :=
  inOrder (shapeHitsFrom bytes 0 (secretShapes.map fun _ => 0))

/-- The claimed spans not passed yet, and the furthest end of those that were. -/
structure Claimed where
  spans : List SecretSpan
  reach : Nat

def Claimed.pass (start : Nat) : List SecretSpan → Nat → Claimed
  | [], reach => ⟨[], reach⟩
  | span :: rest, reach =>
    if span.start < start then pass start rest (max reach span.stop) else ⟨span :: rest, reach⟩

/-- Whether `start..stop` overlaps a claimed span; `start` never falls between two calls. -/
def Claimed.overlaps (claimed : Claimed) (start stop : Nat) : Bool × Claimed :=
  let passed := Claimed.pass start claimed.spans claimed.reach
  (passed.reach > start ||
      (passed.spans.takeWhile fun span => span.start < stop).any fun span => span.stop > start,
    passed)

theorem tail_shorter (first : UInt8) (tail : Bytes) : tail.length < (first :: tail).length :=
  Nat.lt_succ_self tail.length

theorem beyond_shorter {first : UInt8} {tail : Bytes} (token : tokenByte first = true) :
    ((first :: tail).drop ((first :: tail).takeWhile tokenByte).length).length <
      (first :: tail).length := by
  rw [takeWhile_cons_of_pos token, length_drop, length_cons, length_cons]
  omega

/-- The token runs that no shape claimed and that read as secrets. -/
def runsFrom (bytes : Bytes) (rest : Bytes) (at_ : Nat) (claimed : Claimed) : List SecretSpan :=
  match rest with
  | [] => []
  | first :: tail =>
    if tokenByte first then
      let run := (first :: tail).takeWhile tokenByte
      let beyond := (first :: tail).drop run.length
      if run.length ≥ entropySpanMinBytes then
        let (overlapped, claimed) := claimed.overlaps at_ (at_ + run.length)
        if !overlapped && ((mixedAlphabet run && entropyPasses run)
            || isLabelledHexSecret bytes run at_) then
          ⟨at_, run.length, none⟩ :: runsFrom bytes beyond (at_ + run.length) claimed
        else runsFrom bytes beyond (at_ + run.length) claimed
      else runsFrom bytes beyond (at_ + run.length) claimed
    else runsFrom bytes tail (at_ + 1) claimed
termination_by rest.length
decreasing_by
  · exact beyond_shorter ‹_›
  · exact beyond_shorter ‹_›
  · exact beyond_shorter ‹_›
  · exact tail_shorter first tail

/-- Shape table first; entropy second over token runs that no shape already claimed. -/
def scan (bytes : Bytes) : List SecretSpan :=
  let hits := findShapeHits bytes
  inOrder (hits ++ runsFrom bytes bytes 0 ⟨hits, 0⟩)

/-! ### Where the spans stand -/

/-- A byte every detector's alphabet is within: ASCII, and not the colon of a marker. -/
def Plain (byte : UInt8) : Prop := byte.toNat < 128 ∧ byte.toNat ≠ 58

instance (byte : UInt8) : Decidable (Plain byte) :=
  inferInstanceAs (Decidable (byte.toNat < 128 ∧ byte.toNat ≠ 58))

/-- A span that stands on plain bytes of a text, and on at least one. -/
structure Placed (bytes : Bytes) (span : SecretSpan) : Prop where
  some_bytes : 0 < span.len
  inside : span.stop ≤ bytes.length
  plain : ∀ i byte, span.start ≤ i → i < span.stop → bytes[i]? = some byte → Plain byte

variable {byte : UInt8}

theorem plain_of_isAlphanumeric (found : Ascii.isAlphanumeric byte = true) : Plain byte := by
  simp only [Ascii.isAlphanumeric, Ascii.isUpper, Ascii.isLower, Ascii.isDigit, Bool.or_eq_true,
    Bool.and_eq_true, decide_eq_true_eq] at found
  simp only [Plain]
  omega

theorem plain_of_charsetAdmits {charset : SecretCharset}
    (found : charsetAdmits charset byte = true) : Plain byte := by
  cases charset with
  | base62 => exact plain_of_isAlphanumeric found
  | base64Url =>
    simp only [charsetAdmits, Bool.or_eq_true, decide_eq_true_eq] at found
    rcases found with ((letter | rfl) | rfl) | rfl
    · exact plain_of_isAlphanumeric letter
    all_goals decide
  | hexLower =>
    simp only [charsetAdmits, Ascii.isDigit, Bool.or_eq_true, Bool.and_eq_true,
      decide_eq_true_eq] at found
    simp only [Plain]
    omega
  | upperBase36 =>
    simp only [charsetAdmits, Ascii.isUpper, Ascii.isDigit, Bool.or_eq_true, Bool.and_eq_true,
      decide_eq_true_eq] at found
    simp only [Plain]
    omega

theorem plain_of_tokenByte (found : tokenByte byte = true) : Plain byte := by
  simp only [tokenByte, Bool.or_eq_true, decide_eq_true_eq] at found
  rcases found with (((letter | rfl) | rfl) | rfl) | rfl
  · exact plain_of_isAlphanumeric letter
  all_goals decide

theorem secretShapes_plain : ∀ shape ∈ secretShapes,
    0 < shape.len.2 ∧ ∀ byte ∈ Ascii.bytes shape.leading, Plain byte := by
  have checked : (secretShapes.all fun shape => decide (0 < shape.len.2) &&
      (shape.leading.toList.map Ascii.byte).all fun byte => decide (Plain byte)) = true := by
    delta secretShapes
    simp only [all_cons, all_nil]
    repeat rw [String.toList_ofList]
    decide +kernel
  intro shape member
  simpa [Ascii.bytes] using all_eq_true.mp checked shape member

variable {bytes : Bytes} {span : SecretSpan}

theorem placed_of_run {before run after : Bytes} (whole : bytes = before ++ (run ++ after))
    (start : span.start = before.length) (some_bytes : 0 < span.len)
    (short : span.len ≤ run.length) (plain : ∀ byte ∈ run, Plain byte) : Placed bytes span := by
  refine ⟨some_bytes, ?_, ?_⟩
  · rw [whole, SecretSpan.stop, length_append, length_append]
    omega
  · intro i byte after_start before_stop found
    rw [SecretSpan.stop] at before_stop
    rw [whole, getElem?_append_right (by omega), getElem?_append_left (by omega)] at found
    exact plain byte (mem_of_getElem? found)

variable {rest : Bytes}

theorem shapeAt_placed {before : Bytes} {shape : SecretShape} {next : Nat}
    (listed : shape ∈ secretShapes) (whole : bytes = before ++ rest)
    (hit : (shapeAt rest before.length (shape, next)).1 = some span) : Placed bytes span := by
  simp only [shapeAt] at hit
  split at hit
  · cases hit
  · next matched =>
      simp only [Bool.or_eq_true, decide_eq_true_eq, Bool.not_eq_true', not_or, Bool.not_eq_true,
        Bool.not_eq_false, isPrefixOf_iff_prefix] at matched
      obtain ⟨⟨-, opens⟩, tail, joined⟩ := matched
      have shapeFacts := secretShapes_plain shape listed
      have opening : 0 < (Ascii.bytes shape.leading).length := by
        cases written : Ascii.bytes shape.leading with
        | nil =>
          rw [written] at opens
          cases opens
        | cons _ _ => exact Nat.succ_pos _
      rw [← joined, drop_left] at hit
      split at hit
      · cases hit
        have run : rest = (Ascii.bytes shape.leading ++ tail.takeWhile (charsetAdmits shape.charset))
            ++ tail.dropWhile (charsetAdmits shape.charset) := by
          rw [append_assoc, takeWhile_append_dropWhile, joined]
        refine placed_of_run (whole.trans (congrArg _ run)) rfl ?_ ?_ ?_
        · show 0 < min _ _
          omega
        · rw [length_append]
          exact Nat.min_le_left _ _
        · intro byte member
          rcases mem_append.mp member with leading | body
          · exact shapeFacts.2 byte leading
          · exact plain_of_charsetAdmits (mem_takeWhile_imp body)
      · cases hit

theorem shapeHitsFrom_placed (before : Bytes) {resume : List Nat} (whole : bytes = before ++ rest)
    (hit : span ∈ shapeHitsFrom rest before.length resume) : Placed bytes span := by
  induction rest generalizing before resume with
  | nil => cases hit
  | cons first rest ih =>
    have moved : bytes = (before ++ [first]) ++ rest := by rw [whole, append_assoc]; rfl
    have length : (before ++ [first]).length = before.length + 1 := length_append
    rw [shapeHitsFrom] at hit
    split at hit
    · rcases mem_append.mp hit with here | later
      · obtain ⟨answer, answered, shown⟩ := mem_filterMap.mp here
        obtain ⟨⟨shape, next⟩, asked, rfl⟩ := mem_map.mp answered
        exact shapeAt_placed (of_mem_zip asked).1 whole shown
      · rw [← length] at later
        exact ih _ moved later
    · rw [← length] at hit
      exact ih _ moved hit

theorem runsFrom_placed (before : Bytes) {claimed : Claimed} (whole : bytes = before ++ rest)
    (hit : span ∈ runsFrom bytes rest before.length claimed) : Placed bytes span := by
  induction size : rest.length using Nat.strongRecOn generalizing before rest claimed with
  | ind n ih =>
    cases rest with
    | nil =>
      rw [runsFrom] at hit
      cases hit
    | cons first tail =>
      rw [runsFrom] at hit
      split at hit
      · next token =>
          -- The run is not empty, so what stands beyond it is shorter.
          generalize runIs : (first :: tail).takeWhile tokenByte = run at hit
          have some_run : 0 < run.length := by
            rw [← runIs, takeWhile_cons, if_pos token]
            exact Nat.succ_pos _
          have split_run : first :: tail = run ++ (first :: tail).drop run.length := by
            have parts := takeWhile_append_dropWhile (p := tokenByte) (l := first :: tail)
            rw [runIs] at parts
            rw [← parts, drop_left]
          have moved : bytes = (before ++ run) ++ (first :: tail).drop run.length := by
            rw [whole, append_assoc, ← split_run]
          have length : (before ++ run).length = before.length + run.length := length_append
          have shorter : ((first :: tail).drop run.length).length < n := by
            rw [length_drop, ← size, length_cons]
            omega
          have beyond : ∀ claimed, span ∈ runsFrom bytes ((first :: tail).drop run.length)
              (before.length + run.length) claimed → Placed bytes span := by
            intro claimed later
            rw [← length] at later
            exact ih _ shorter _ moved later rfl
          have placed : Placed bytes ⟨before.length, run.length, none⟩ := by
            refine placed_of_run (whole.trans (congrArg _ split_run)) rfl some_run
              (Nat.le_refl _) ?_
            intro byte member
            rw [← runIs] at member
            exact plain_of_tokenByte (mem_takeWhile_imp member)
          simp only at hit
          split at hit
          · split at hit
            · rcases mem_cons.mp hit with rfl | later
              · exact placed
              · exact beyond _ later
            · exact beyond _ hit
          · exact beyond _ hit
      · next other =>
          have moved : bytes = (before ++ [first]) ++ tail := by rw [whole, append_assoc]; rfl
          have length : (before ++ [first]).length = before.length + 1 := length_append
          rw [← length] at hit
          exact ih tail.length (by rw [← size]; exact Nat.lt_succ_self _) _ moved hit rfl

theorem mem_inOrder {spans : List SecretSpan} :
    span ∈ inOrder spans ↔ span ∈ spans := (perm_insertionSort _ spans).mem_iff

theorem scan_placed (reported : span ∈ scan bytes) : Placed bytes span := by
  rcases mem_append.mp (mem_inOrder.mp reported) with shaped | run
  · exact shapeHitsFrom_placed [] rfl (mem_inOrder.mp shaped)
  · exact runsFrom_placed [] rfl run

theorem inOrder_pairwise (spans : List SecretSpan) :
    (inOrder spans).Pairwise fun first second => first.le second = true := by
  have : Std.Total fun first second : SecretSpan => first.le second = true := by
    constructor
    intro first second
    simp only [SecretSpan.le, Bool.or_eq_true, Bool.and_eq_true, decide_eq_true_eq]
    omega
  have : IsTrans SecretSpan fun first second => first.le second = true := by
    constructor
    intro first second third
    simp only [SecretSpan.le, Bool.or_eq_true, Bool.and_eq_true, decide_eq_true_eq]
    omega
  exact pairwise_insertionSort _ _

/-- Spans are reported in order of start, and none is empty. -/
theorem scan_listed (bytes : Bytes) :
    Spans.Listed SecretSpan.start SecretSpan.stop (scan bytes) := by
  constructor
  · apply (inOrder_pairwise _).imp
    intro first second ordered
    simp only [SecretSpan.le, Bool.or_eq_true, Bool.and_eq_true, decide_eq_true_eq] at ordered
    omega
  · intro span reported
    have placed := scan_placed reported
    have some_bytes := placed.some_bytes
    rw [SecretSpan.stop]
    omega

end Secret

end Sprawling
