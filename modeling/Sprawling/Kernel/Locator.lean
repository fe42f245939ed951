import Sprawling.Kernel.Address
import Sprawling.Kernel.Digest

namespace Sprawling

open List Digest Text

def u64Bound : Nat := 2 ^ 64

/-- Sub-content range. `lines` is 1-based closed, `bytes` 0-based closed. The constructors are
open to every caller; only `Range.ofLines` and `Range.ofBytes` check the bounds. -/
inductive Range where
  | lines (low high : UInt64)
  | bytes (low high : UInt64)
deriving DecidableEq

namespace Range

def rangeError (unit : String) (low high : UInt64) : AxError :=
  .failure .invalidArgs "construct range" s!"{unit} {low}-{high}"
    "require from <= to; line ranges start at 1, byte ranges at 0"

def ofLines (low high : UInt64) : Except AxError Range :=
  if low = 0 ∨ low > high then .error (rangeError "lines" low high) else .ok (.lines low high)

def ofBytes (low high : UInt64) : Except AxError Range :=
  if low > high then .error (rangeError "bytes" low high) else .ok (.bytes low high)

def display : Range → List Char
  | lines low high => 'L' :: Text.decimal low.toNat ++ '-' :: Text.decimal high.toNat
  | bytes low high => 'B' :: Text.decimal low.toNat ++ '-' :: Text.decimal high.toNat

end Range

/-- The two-scheme reference grammar. -/
inductive Locator where
  | cas (hash : B3Hash) (range : Option Range)
  | file (address : Address) (oid : GitOid) (range : Option Range)
deriving DecidableEq

namespace Locator

def invalid (raw : List Char) (violation : String) : AxError :=
  .failure .locatorInvalid "parse locator" (String.ofList raw) violation

def writeRange : Option Range → List Char
  | none => []
  | some range => '#' :: range.display

def display : Locator → List Char
  | cas hash range => "cas:b3-".toList ++ hash.display ++ writeRange range
  | file address oid range =>
    "file:".toList ++ address.text ++ '@' :: oid.display ++ writeRange range

/-- Digits only, no leading zeros (except "0" itself), no signs. -/
def parseCanonicalU64 (raw digits : List Char) : Except AxError UInt64 :=
  if digits.isEmpty || !digits.all Char.isDigit then
    .error (invalid raw "range bound must be decimal digits")
  else if digits.length > 1 ∧ digits.head? = some '0' then
    .error (invalid raw "range bound must not carry leading zeros")
  else
    match parseUnsigned u64Bound digits with
    | some value => .ok (UInt64.ofNat value)
    | none => .error (invalid raw "range bound exceeds u64")

def parseRange (raw : List Char) : List Char → Except AxError Range
  | [] => .error (invalid raw "empty range fragment")
  | unit :: body =>
    match splitOnce '-' body with
    | none => .error (invalid raw "range needs `<from>-<to>`")
    | some (fromRaw, toRaw) => do
        let low ← parseCanonicalU64 raw fromRaw
        let high ← parseCanonicalU64 raw toRaw
        let outOfOrder := invalid raw "range bounds are out of order or out of base"
        if unit = 'L' then (Range.ofLines low high).mapError fun _ => outOfOrder
        else if unit = 'B' then (Range.ofBytes low high).mapError fun _ => outOfOrder
        else .error (invalid raw "range unit must be `L` (lines) or `B` (bytes)")

/-- Splits an optional range suffix off `rest`; `raw` only feeds the errors. -/
def splitRange (raw rest : List Char) : Except AxError (List Char × Option Range) :=
  match splitOnce '#' rest with
  | none => .ok (rest, none)
  | some (body, fragment) => do
      let range ← parseRange raw fragment
      return (body, some range)

/-- What follows `mark` when the text starts with it. -/
def stripPrefix (mark text : List Char) : Option (List Char) :=
  if mark.isPrefixOf text then some (text.drop mark.length) else none

def parseInner (raw : List Char) : Except AxError Locator :=
  match stripPrefix "cas:".toList raw with
  | some rest => do
      let (body, range) ← splitRange raw rest
      match stripPrefix "b3-".toList body with
      | none => .error (invalid raw "unknown or missing algorithm tag; the only tag is `b3-`")
      | some hex =>
        match decodeHexFixed 32 hex with
        | none => .error (invalid raw "hash must be exactly 64 lowercase hex digits")
        | some hash => .ok (cas hash range)
  | none =>
    match stripPrefix "file:".toList raw with
    | some rest => do
        let (body, range) ← splitRange raw rest
        match rsplitOnce '@' body with
        | none => .error (invalid raw "file locator needs `<address>@<git-oid>`")
        | some (addrRaw, oidRaw) => do
            let address ← (Address.parse addrRaw).mapError fun _ =>
              invalid raw "address part violates the address grammar"
            match decodeHexFixed 20 oidRaw with
            | none => .error (invalid raw "git oid must be exactly 40 lowercase hex digits")
            | some oid => .ok (file address oid range)
    | none =>
      if "secret:".toList.isPrefixOf raw then
        .error (invalid raw
          "SecretRef never enters the locator grammar (separate parser by design)")
      else .error (invalid raw "unknown scheme; only `cas:` and `file:` exist")

/-- Exact grammar or a refusal: what was read has to be displayed as it was written. -/
def parse (raw : List Char) : Except AxError Locator := do
  let parsed ← parseInner raw
  let echo := parsed.display
  if echo = raw then .ok parsed
  else .error (invalid raw s!"non-canonical spelling; use `{String.ofList echo}`")

variable {c : Char}

theorem writeHex_chars {bytes : List UInt8} (member : c ∈ writeHex bytes) :
    Text.isWhitespace c = false ∧ c ≠ '\n' := by
  have digit := mem_hexDigits_of_mem_writeHex member
  have plain : ∀ c ∈ hexDigits, Text.isWhitespace c = false ∧ c ≠ '\n' :=
    forall_hexDigits (by decide +kernel)
  exact plain c digit

theorem display_ne_nil {width : Nat} (positive : 0 < width) (digest : Digest width) :
    digest.display ≠ [] := by
  have sized := digest.sized
  cases shape : digest.bytes with
  | nil =>
    rw [shape] at sized
    simp only [length_nil] at sized
    omega
  | cons byte bytes => simp [Digest.display, writeHex, shape]

theorem range_display_chars {range : Range} (member : c ∈ range.display) :
    Text.isWhitespace c = false ∧ c ≠ '\n' := by
  have digit : ∀ value : Nat, c ∈ Text.decimal value → Text.isWhitespace c = false ∧ c ≠ '\n' := by
    intro value inside
    have digits := decimal_digits value c inside
    refine ⟨isWhitespace_of_isDigit digits, ?_⟩
    rintro rfl
    exact absurd digits (by decide)
  cases range with
  | lines low high =>
    simp only [Range.display, cons_append, mem_cons, mem_append] at member
    rcases member with rfl | inside | rfl | inside
    · decide
    · exact digit _ inside
    · decide
    · exact digit _ inside
  | bytes low high =>
    simp only [Range.display, cons_append, mem_cons, mem_append] at member
    rcases member with rfl | inside | rfl | inside
    · decide
    · exact digit _ inside
    · decide
    · exact digit _ inside

variable {range : Option Range}

theorem writeRange_chars (member : c ∈ writeRange range) :
    Text.isWhitespace c = false ∧ c ≠ '\n' := by
  cases range with
  | none => cases member
  | some range =>
    rcases mem_cons.mp member with rfl | inside
    · decide
    · exact range_display_chars inside

theorem last_visible {front hex : List Char} (some_hex : hex ≠ [])
    (visible : ∀ c ∈ hex, Text.isWhitespace c = false) :
    ∀ c, (front ++ hex ++ writeRange range).getLast? = some c → Text.isWhitespace c = false := by
  intro c last
  rw [append_assoc, getLast?_append_of_ne_nil _ (by simp [some_hex])] at last
  rcases mem_append.mp (mem_of_getLast? last) with inside | inside
  · exact visible c inside
  · exact (writeRange_chars inside).1

theorem newline_not_mem_address (address : Address) : '\n' ∉ address.text := by
  intro member
  have control : address.text.any Address.isControl = true :=
    any_eq_true.mpr ⟨'\n', member, by decide⟩
  have passes := address.canonical
  simp only [Address.refuse, control, if_true] at passes
  repeat' split at passes
  all_goals cases passes

theorem display_cas (hash : B3Hash) (range : Option Range) :
    (cas hash range).display = "cas:b3-".toList ++ hash.display ++ writeRange range := rfl

theorem display_file (address : Address) (oid : GitOid) (range : Option Range) :
    (file address oid range).display =
      ("file:".toList ++ address.text ++ ['@']) ++ oid.display ++ writeRange range := by
  rw [append_assoc _ ['@'], singleton_append]
  rfl

theorem newline_not_mem_display (locator : Locator) : '\n' ∉ locator.display := by
  cases locator with
  | cas hash range =>
    rw [display_cas]
    simp only [mem_append, not_or]
    refine ⟨⟨by decide, fun member => (writeHex_chars member).2 rfl⟩,
      fun member => (writeRange_chars member).2 rfl⟩
  | file address oid range =>
    rw [display_file]
    simp only [mem_append, not_or]
    refine ⟨⟨⟨⟨by decide, newline_not_mem_address address⟩, by decide⟩,
      fun member => (writeHex_chars member).2 rfl⟩, fun member => (writeRange_chars member).2 rfl⟩

theorem trimmed_display (locator : Locator) : Text.Trimmed locator.display := by
  cases locator with
  | cas hash range =>
    rw [display_cas]
    refine ⟨fun c first => ?_, last_visible (display_ne_nil (by decide) hash)
      fun c member => (writeHex_chars member).1⟩
    have same : 'c' = c := by simpa using first
    rw [← same]
    decide
  | file address oid range =>
    rw [display_file]
    refine ⟨fun c first => ?_, last_visible (display_ne_nil (by decide) oid)
      fun c member => (writeHex_chars member).1⟩
    have same : 'f' = c := by simpa using first
    rw [← same]
    decide

theorem locator_display_ne_nil (locator : Locator) : locator.display ≠ [] := by
  cases locator with
  | cas hash range =>
    rw [display_cas]
    simp
  | file address oid range =>
    rw [display_file]
    simp

/-- Whatever parses is displayed exactly as it was written. -/
theorem display_of_parse {raw : List Char} {locator : Locator}
    (success : parse raw = .ok locator) : locator.display = raw := by
  unfold parse at success
  cases inner : parseInner raw with
  | error refusal =>
    rw [inner] at success
    cases success
  | ok parsed =>
    rw [inner] at success
    change (if parsed.display = raw then Except.ok parsed else _) = _ at success
    split at success
    · rename_i echo
      cases success
      exact echo
    · cases success

end Locator

end Sprawling
