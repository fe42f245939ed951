import Sprawling.Kernel.Digest
import Sprawling.Storage.Ledger

/-! The lines the city itself writes, as a codec that runs: their canonical JSON text, read back
by its shape, and BLAKE3 by the digests already known of some bytes. -/

namespace Sprawling

open List Digest Text

namespace CityWire

/-- What the city records in its own name: its first line, or bytes cut from the tail. -/
inductive CityDraft where
  | cityInitialized (t : Nat)
  | logTruncated (t droppedBytes : Nat)
deriving DecidableEq

def beforeDropped : List Char := "\"dropped_bytes\":".toList

namespace CityDraft

def kind : CityDraft → List Char
  | cityInitialized _ => "city_initialized".toList
  | logTruncated _ _ => "log_truncated".toList

def t : CityDraft → Nat
  | cityInitialized t => t
  | logTruncated t _ => t

def data : CityDraft → List Char
  | cityInitialized _ => []
  | logTruncated _ droppedBytes => beforeDropped ++ decimal droppedBytes

end CityDraft

/-- A line of the city in the ledger. -/
abbrev CityRecord := EventRecord Bytes CityDraft

def ascii (text : List Char) : Bytes := text.map fun c => UInt8.ofNat c.toNat

def chars (bytes : Bytes) : List Char := bytes.map fun byte => Char.ofNat byte.toNat

def unhex (text : List Char) : Bytes := (decodeHex text).getD []

/-- The text around the fields of a line, in the order they are written. -/
def beforeV : List Char := "\x7b\"v\":".toList

def beforeSeq : List Char := ",\"run\":\"00000000-0000-0000-0000-000000000000\",\"seq\":".toList

def beforePrev : List Char := ",\"prev\":\"".toList

def beforeT : List Char := "\",\"t\":".toList

def beforeKind : List Char := ",\"who\":\"city\",\"kind\":\"".toList

def beforeData : List Char := "\",\"data\":\x7b".toList

def ending : List Char := "\x7d\x7d".toList

def text (record : CityRecord) : List Char :=
  beforeV ++ decimal record.v ++ beforeSeq ++ decimal record.seq.value ++ beforePrev ++
    writeHex record.prev ++ beforeT ++ decimal record.draft.t ++ beforeKind ++ record.draft.kind ++
      beforeData ++ record.draft.data ++ ending

/-- The field that starts after `lead` and ends before `stop`, and what follows it. -/
def field (lead : List Char) (stop : Char) (line : List Char) : List Char × List Char :=
  ((line.drop lead.length).takeWhile (· ≠ stop), (line.drop lead.length).dropWhile (· ≠ stop))

def number (digits : List Char) : Nat := Nat.ofDigitChars 10 digits 0

def seqOf (value : Nat) : Seq := if lt : value < 2 ^ 64 then ⟨value, lt⟩ else Seq.first

/-- The fields of a line, each read where its text stands. -/
def fields (line : List Char) : CityRecord :=
  let v := field beforeV ',' line
  let seq := field beforeSeq ',' v.2
  let prev := field beforePrev '"' seq.2
  let t := field beforeT ',' prev.2
  let kind := field beforeKind '"' t.2
  let dropped := field (beforeData ++ beforeDropped) '\x7d' kind.2
  { v := number v.1
    seq := seqOf (number seq.1)
    prev := unhex prev.1
    draft :=
      if kind.1 = "log_truncated".toList then .logTruncated (number t.1) (number dropped.1)
      else .cityInitialized (number t.1) }

/-- A line is the text of its fields, and nothing else is. -/
def read (raw : Bytes) : Except String CityRecord :=
  let record := fields (chars raw)
  if ascii (text record) = raw then .ok record else .error "expected value"

def kindText (draft : CityDraft) : String := String.ofList draft.kind

def knownKind (kind : String) : Bool := kind == "city_initialized" || kind == "log_truncated"

def wire (known : List (Bytes × Bytes)) : Wire Bytes CityDraft where
  envelope raw := (read raw).map fun record =>
    { v := record.v, seq := record.seq, prev := record.prev, kind := kindText record.draft, ig := false }
  isEventKind := knownKind
  parseLine := read
  canonicalLine record := .ok (ascii (text record))
  blake3 := tabled known
  genesisPrev := List.replicate 32 0
  probeV raw := (read raw).toOption.map fun record => record.v
  kindOf := kindText
  logTruncated := .logTruncated

def Plain (text : List Char) : Prop := ∀ c ∈ text, 32 ≤ c.toNat ∧ c.toNat < 127

theorem plain_append {first second : List Char} (left : Plain first) (right : Plain second) :
    Plain (first ++ second) := by
  intro c member
  rcases mem_append.mp member with member | member
  · exact left c member
  · exact right c member

theorem plain_of_all {text : List Char}
    (checked : text.all (fun c => 32 ≤ c.toNat ∧ c.toNat < 127) = true) : Plain text :=
  fun c member => of_decide_eq_true (all_eq_true.mp checked c member)

theorem plain_decimal (value : Nat) : Plain (decimal value) := by
  intro c member
  have digit := decimal_digits value c member
  simp only [Char.isDigit, Bool.and_eq_true, decide_eq_true_eq, UInt32.le_iff_toNat_le] at digit
  change 48 ≤ c.toNat ∧ c.toNat ≤ 57 at digit
  omega

theorem hex_spec (digest : Bytes) :
    Plain (writeHex digest) ∧ '"' ∉ writeHex digest := by
  have digits : ∀ c ∈ hexDigits, (32 ≤ c.toNat ∧ c.toNat < 127) ∧ c ≠ '"' :=
    forall_hexDigits (by decide +kernel)
  refine ⟨fun c member => ?_, fun member => ?_⟩
  · exact (digits c (mem_hexDigits_of_mem_writeHex member)).1
  · exact (digits '"' (mem_hexDigits_of_mem_writeHex member)).2 rfl

theorem unhex_writeHex (digest : Bytes) : unhex (writeHex digest) = digest := by
  rw [unhex, decodeHex_writeHex, Option.getD_some]

theorem plain_text (record : CityRecord) : Plain (text record) := by
  have kind : Plain record.draft.kind := by
    cases record.draft
    · exact @plain_of_all "city_initialized".toList (by decide)
    · exact @plain_of_all "log_truncated".toList (by decide)
  have data : Plain record.draft.data := by
    cases record.draft
    · exact plain_of_all rfl
    · exact plain_append (plain_of_all (by decide)) (plain_decimal _)
  unfold text
  repeat apply plain_append
  · exact plain_of_all (by decide)
  · exact plain_decimal _
  · exact plain_of_all (by decide)
  · exact plain_decimal _
  · exact plain_of_all (by decide)
  · exact (hex_spec _).1
  · exact plain_of_all (by decide)
  · exact plain_decimal _
  · exact plain_of_all (by decide)
  · exact kind
  · exact plain_of_all (by decide)
  · exact data
  · exact plain_of_all (by decide)

theorem chars_ascii {text : List Char} (plain : Plain text) : chars (ascii text) = text := by
  induction text with
  | nil => rfl
  | cons c rest ih =>
    have bound := plain c mem_cons_self
    have small : (UInt8.ofNat c.toNat).toNat = c.toNat := by
      rw [UInt8.toNat_ofNat']
      omega
    have tail := ih fun other member => plain other (mem_cons_of_mem _ member)
    show Char.ofNat (UInt8.ofNat c.toNat).toNat :: chars (ascii rest) = c :: rest
    rw [small, Char.ofNat_toNat, tail]

theorem ascii_bytes {text : List Char} (plain : Plain text) :
    newline ∉ ascii text ∧ 0 ∉ ascii text := by
  have printable : ∀ byte ∈ ascii text, 32 ≤ byte.toNat := by
    intro byte member
    rcases mem_map.mp member with ⟨c, present, rfl⟩
    have bound := plain c present
    rw [UInt8.toNat_ofNat']
    omega
  refine ⟨fun member => ?_, fun member => ?_⟩
  · exact absurd (printable _ member) (by decide)
  · exact absurd (printable _ member) (by decide)

theorem field_append {lead value rest : List Char} {stop : Char} (clean : stop ∉ value)
    (stopped : rest.head? = some stop) :
    field lead stop (lead ++ (value ++ rest)) = (value, rest) := by
  have passes : ∀ c ∈ value, decide (c ≠ stop) = true := by
    intro c member
    simp only [ne_eq, decide_not, Bool.not_eq_eq_eq_not, Bool.not_true, decide_eq_false_iff_not]
    intro same
    exact clean (same ▸ member)
  cases rest with
  | nil => cases stopped
  | cons first rest =>
    simp only [head?_cons, Option.some.injEq] at stopped
    rw [field, drop_left, takeWhile_append_of_pos passes, dropWhile_append_of_pos passes]
    simp [stopped]

theorem number_decimal (value : Nat) : number (decimal value) = value := by
  simp [number, decimal]

theorem fields_text (record : CityRecord) : fields (text record) = record := by
  rcases record with ⟨v, seq, prev, draft⟩
  have comma := not_mem_decimal (c := ',') (by decide)
  have brace := not_mem_decimal (c := '\x7d') (by decide)
  have shape : text ⟨v, seq, prev, draft⟩ = beforeV ++ (decimal v ++ (beforeSeq ++
      (decimal seq.value ++ (beforePrev ++ (writeHex prev ++ (beforeT ++ (decimal draft.t ++
        (beforeKind ++ (draft.kind ++ (beforeData ++ (draft.data ++ ending))))))))))) := by
    simp only [text, append_assoc]
  have quote : '"' ∉ draft.kind := by
    cases draft
    · exact (by decide : '"' ∉ "city_initialized".toList)
    · exact (by decide : '"' ∉ "log_truncated".toList)
  have placed : seqOf seq.value = seq := by rw [seqOf, dif_pos seq.lt]
  have notTruncated : "city_initialized".toList ≠ "log_truncated".toList := by decide
  unfold fields
  simp only
  rw [shape, field_append (comma v) rfl]
  simp only
  rw [field_append (comma seq.value) rfl]
  simp only
  rw [field_append (hex_spec prev).2 rfl]
  simp only
  rw [field_append (comma draft.t) rfl]
  simp only
  rw [field_append quote rfl, number_decimal, number_decimal, number_decimal, unhex_writeHex,
    placed]
  simp only
  cases draft with
  | cityInitialized t =>
    have other : (CityDraft.cityInitialized t).kind ≠ "log_truncated".toList := notTruncated
    rw [if_neg other]
    rfl
  | logTruncated t droppedBytes =>
    have same : (CityDraft.logTruncated t droppedBytes).kind = "log_truncated".toList := rfl
    have dropped : beforeData ++ ((CityDraft.logTruncated t droppedBytes).data ++ ending) =
        (beforeData ++ beforeDropped) ++ (decimal droppedBytes ++ ending) := by
      simp only [CityDraft.data, append_assoc]
    rw [if_pos same, dropped, field_append (brace droppedBytes) rfl, number_decimal]
    rfl

theorem read_text (record : CityRecord) : read (ascii (text record)) = .ok record := by
  rw [read, chars_ascii (plain_text record), fields_text]
  simp

variable {record : CityRecord}

theorem eq_text_of_read {raw : Bytes} (passed : read raw = .ok record) :
    raw = ascii (text record) := by
  simp only [read] at passed
  split at passed
  · next same =>
      cases passed
      exact same.symm
  · cases passed

theorem ascii_text_ne_nil (record : CityRecord) : ascii (text record) ≠ [] := by
  simp [ascii, text, ending]

theorem isEventKind_cityInitialized : knownKind (String.ofList "city_initialized".toList) = true := by
  decide +kernel

theorem isEventKind_logTruncated : knownKind (String.ofList "log_truncated".toList) = true := by
  decide +kernel

theorem eq_text_of_line {known : List (Bytes × Bytes)} {line : Bytes}
    (written : (wire known).canonicalLine record = .ok line) : line = ascii (text record) :=
  (Except.ok.inj written).symm

theorem wire_lawful (known : List (Bytes × Bytes)) : (wire known).Lawful where
  envelope_bytes := by
    intro raw envelope passed
    simp only [wire] at passed
    cases found : read raw with
    | error e =>
      rw [found] at passed
      cases passed
    | ok record =>
      rw [eq_text_of_read found]
      exact ⟨ascii_text_ne_nil record, (ascii_bytes (plain_text record)).2⟩
  line_bytes := by
    intro record line written
    rw [eq_text_of_line written]
    exact ascii_bytes (plain_text record)
  line_envelope := by
    intro record line written
    rw [eq_text_of_line written]
    simp only [wire, read_text]
    exact ⟨false, rfl⟩
  line_kind := by
    intro draft
    cases draft with
    | cityInitialized t => exact isEventKind_cityInitialized
    | logTruncated t droppedBytes => exact isEventKind_logTruncated
  line_parse := by
    intro record line written
    rw [eq_text_of_line written]
    simp only [wire, read_text]
  line_probe := by
    intro record line written
    rw [eq_text_of_line written]
    simp only [wire, read_text]
    rfl
  logTruncated_line := fun _ _ _ _ => ⟨_, rfl⟩

theorem segmentLines_join {lines : List Bytes} {torn : Bytes} (unended : newline ∉ torn)
    (written : ∀ line ∈ lines, ∃ record, line = ascii (text record)) :
    Reading.segmentLines (Lines.join newline lines ++ torn) = lines := by
  have ended : ∀ line ∈ lines, newline ∉ line := by
    intro line member
    obtain ⟨record, rfl⟩ := written line member
    exact (ascii_bytes (plain_text record)).1
  rw [Reading.segmentLines, Lines.complete_join_append ended, Lines.complete_unended unended,
    append_nil, filter_eq_self]
  intro line member
  obtain ⟨record, rfl⟩ := written line member
  simp [ascii_text_ne_nil record]

theorem tabled_text (record : CityRecord) (digest : Bytes) (known : List (Bytes × Bytes)) :
    tabled ((ascii (text record), digest) :: known) (ascii (text record)) = digest := by
  rw [tabled, lookup_cons_self, Option.getD_some]

theorem envelope_text (known : List (Bytes × Bytes)) (record : CityRecord) :
    (wire known).envelope (ascii (text record)) =
      .ok ⟨record.v, record.seq, record.prev, kindText record.draft, false⟩ := by
  simp only [wire, read_text, Except.map]

end CityWire

end Sprawling
