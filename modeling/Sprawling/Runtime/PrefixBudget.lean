import Sprawling.Base.Outcome
import Sprawling.Runtime.Prefix

/-! What a segment carries of its documents, and when it keeps to its byte cap. -/

namespace Sprawling

open List Elision Utf8 Elision.Boundary

open Utf8 (byteLen)

namespace Prefix

/-- One document as its segment carries it: its row, and the text that stands for it. -/
structure Piece where
  source : SegmentSource
  text : List Char

section Budget

variable (blake3 : Bytes → B3Hash)

/-- What a segment may carry of a document: the whole of it, or a start of it and the marker of the
bytes that follow; in both, the row counts the bytes carried. -/
inductive Carries (doc : SourceDoc) : Piece → Prop where
  | whole {bytes : Bytes} {body : List Char} (held : doc.bytes = some bytes)
      (spelt : Utf8.decode bytes = some body) :
      Carries doc ⟨⟨doc.addr, byteLen body, 0, blake3 bytes⟩, body⟩
  | cut {bytes : Bytes} {body head tail : List Char} (held : doc.bytes = some bytes)
      (spelt : Utf8.decode bytes = some body) (parts : body = head ++ tail) (lost : tail ≠ []) :
      Carries doc ⟨⟨doc.addr, byteLen head, saturatingLen (byteLen tail),
        blake3 (Utf8.encode head)⟩, head ++ marker (saturatingLen (byteLen tail))⟩

/-- Pieces one behind the other, joined where something stands before. -/
def joined (pieces : List Piece) : List Char :=
  pieces.foldl (fun text piece => text ++ (if text.isEmpty then [] else docJoin) ++ piece.text) []

/-- A gathered text is the pieces of some of the documents offered, in their order, and its rows are
theirs. -/
def Accounts (docs : List SourceDoc) (text : List Char) (sources : List SegmentSource) : Prop :=
  ∃ (kept : List SourceDoc) (pieces : List Piece), kept.Sublist docs ∧
    List.Forall₂ (Carries blake3) kept pieces ∧ text = joined pieces ∧
      sources = pieces.map Piece.source

/-- The join of an empty document behind a text that leaves no room for it. -/
def BareJoin (cap : Nat) (state : Gathering) (doc : SourceDoc) : Prop :=
  doc.bytes = some [] ∧ doc.addr.text ∉ state.seen ∧ state.text ≠ [] ∧
    cap < byteLen state.text + byteLen docJoin

theorem offer_cases (cap : Nat) (state : Gathering) (doc : SourceDoc) :
    (∃ reason, offer blake3 cap state doc = .ok (state.leftOut doc reason)) ∨
      (∃ bytes body, doc.addr.text ∉ state.seen ∧ doc.bytes = some bytes ∧
        Utf8.decode bytes = some body ∧ byteLen body ≤ state.remaining cap ∧
          offer blake3 cap state doc = .ok (state.carrying body (sourceWhole blake3 doc.addr bytes))) ∨
      ∃ bytes body head tail, doc.addr.text ∉ state.seen ∧ doc.bytes = some bytes ∧
        Utf8.decode bytes = some body ∧ body = head ++ tail ∧ tail ≠ [] ∧
          byteLen head + markerRoom (byteLen body) ≤ state.remaining cap ∧
            offer blake3 cap state doc =
              .ok (state.carrying (head ++ marker (saturatingLen (byteLen tail)))
                (sourceCut blake3 doc.addr (Utf8.encode head)
                  (saturatingLen (byteLen tail)))) := by
  unfold offer
  split
  · exact Or.inl ⟨_, rfl⟩
  · next fresh =>
      split
      · exact Or.inl ⟨_, rfl⟩
      · next bytes held =>
          split
          · exact Or.inl ⟨_, rfl⟩
          · next body spelt =>
              split
              · next fits =>
                  exact Or.inr (Or.inl ⟨bytes, body, fresh, held, spelt, fits, rfl⟩)
              · next long =>
                  simp only
                  split
                  · exact Or.inl ⟨_, rfl⟩
                  · next room =>
                      right
                      right
                      generalize limit : state.remaining cap - markerRoom (byteLen body) = at_
                      have sides := before_sides body at_
                      have front := offset_before_le body at_
                      have size := congrArg byteLen sides
                      rw [byteLen_append] at size
                      have kept : Elision.boundaryBefore body at_ =
                          byteLen (Elision.Boundary.before body at_).head := rfl
                      have start : (Utf8.encode body).take (Elision.boundaryBefore body at_) =
                          Utf8.encode (Elision.Boundary.before body at_).head := by
                        have written := congrArg Utf8.encode sides
                        rw [Utf8.encode_append] at written
                        rw [← written, kept, take_left' (length_encode _)]
                      have lost : byteLen body - Elision.boundaryBefore body at_ =
                          byteLen (Elision.Boundary.before body at_).tail := by
                        rw [kept]
                        omega
                      refine ⟨bytes, body, _, _, fresh, held, spelt, sides.symm, ?_, ?_, ?_⟩
                      · intro none_left
                        rw [none_left, byteLen_nil] at size
                        simp only [Elision.Boundary.offset] at front
                        omega
                      · simp only [Elision.Boundary.offset] at front
                        omega
                      · rw [splice_tail, start, lost,
                          if_pos (by rw [length_encode, kept]; omega)]

theorem exists_offered (cap : Nat) (state : Gathering) (doc : SourceDoc) :
    ∃ next, offer blake3 cap state doc = .ok next := by
  rcases offer_cases blake3 cap state doc with ⟨_, done⟩ | ⟨_, _, _, _, _, _, done⟩ |
    ⟨_, _, _, _, _, _, _, _, _, _, done⟩
  · exact ⟨_, done⟩
  · exact ⟨_, done⟩
  · exact ⟨_, done⟩

theorem exists_gathered (cap : Nat) (docs : List SourceDoc) (state : Gathering) :
    ∃ final, docs.foldlM (offer blake3 cap) state = .ok final := by
  obtain ⟨final, gathered, _⟩ := @Outcome.foldlM_ok _ _ _ (offer blake3 cap) (fun _ => True) docs state
    trivial fun doc _ held _ => (exists_offered blake3 cap held doc).imp fun _ done => ⟨done, trivial⟩
  exact ⟨final, gathered⟩

theorem joined_concat (pieces : List Piece) (piece : Piece) :
    joined (pieces ++ [piece]) =
      joined pieces ++ (if (joined pieces).isEmpty then [] else docJoin) ++ piece.text := by
  rw [joined, foldl_append]
  rfl

variable {blake3} {docs : List SourceDoc} {state : Gathering} {doc : SourceDoc}

theorem Accounts.carrying {piece : Piece}
    (account : Accounts blake3 docs state.text state.sources) (carried : Carries blake3 doc piece) :
    Accounts blake3 (docs ++ [doc]) (state.carrying piece.text piece.source).text
      (state.carrying piece.text piece.source).sources := by
  obtain ⟨kept, pieces, listed, same, text, sources⟩ := account
  refine ⟨kept ++ [doc], pieces ++ [piece], listed.append (List.Sublist.refl [doc]),
    rel_append same (List.Forall₂.cons carried List.Forall₂.nil), ?_, ?_⟩
  · rw [joined_concat, ← text]
    rfl
  · rw [map_append, ← sources]
    rfl

theorem Accounts.skip {text : List Char} {sources : List SegmentSource}
    (account : Accounts blake3 docs text sources) (doc : SourceDoc) :
    Accounts blake3 (docs ++ [doc]) text sources := by
  obtain ⟨kept, pieces, listed, rest⟩ := account
  exact ⟨kept, pieces, listed.trans (sublist_append_left docs [doc]), rest⟩

variable {cap : Nat} {next : Gathering}

theorem offer_accounts (small : cap ≤ u64Max)
    (account : Accounts blake3 docs state.text state.sources)
    (offered : offer blake3 cap state doc = .ok next) :
    Accounts blake3 (docs ++ [doc]) next.text next.sources := by
  have room : state.remaining cap ≤ u64Max := Nat.le_trans (Nat.sub_le _ _) small
  clear small
  rcases offer_cases blake3 cap state doc with ⟨reason, done⟩ |
    ⟨bytes, body, _, held, spelt, fits, done⟩ | ⟨bytes, body, head, tail, _, held, spelt, parts, lost, fits, done⟩
  · rw [done] at offered
    cases offered
    exact account.skip doc
  · rw [done] at offered
    cases offered
    have length : bytes.length = byteLen body := by
      rw [← encode_of_decode spelt, length_encode]
    have count : sourceWhole blake3 doc.addr bytes = ⟨doc.addr, byteLen body, 0, blake3 bytes⟩ := by
      rw [sourceWhole, sourceCut, saturatingLen, length, Nat.min_eq_left (Nat.le_trans fits room)]
    rw [count]
    exact account.carrying (.whole held spelt)
  · rw [done] at offered
    cases offered
    have count : sourceCut blake3 doc.addr (Utf8.encode head) (saturatingLen (byteLen tail)) =
        ⟨doc.addr, byteLen head, saturatingLen (byteLen tail), blake3 (Utf8.encode head)⟩ := by
      rw [sourceCut, saturatingLen, length_encode,
        Nat.min_eq_left (Nat.le_trans (Nat.le_trans (Nat.le_add_right _ _) fits) room)]
    rw [count]
    exact account.carrying (.cut held spelt parts lost)

theorem offer_grows (offered : offer blake3 cap state doc = .ok next) :
    byteLen state.text ≤ byteLen next.text := by
  rcases offer_cases blake3 cap state doc with ⟨_, done⟩ | ⟨_, _, _, _, _, _, done⟩ |
    ⟨_, _, _, _, _, _, _, _, _, _, done⟩
  · rw [done] at offered
    cases offered
    exact Nat.le_refl _
  all_goals
    rw [done] at offered
    cases offered
    simp only [Gathering.carrying, byteLen_append]
    omega

theorem offer_bareJoin (bare : BareJoin cap state doc)
    (offered : offer blake3 cap state doc = .ok next) : cap < byteLen next.text := by
  obtain ⟨empty, fresh, some_text, full⟩ := bare
  have spelt : Utf8.decode [] = some [] := Utf8.decode_encode []
  have carried : offer blake3 cap state doc =
      .ok (state.carrying [] (sourceWhole blake3 doc.addr [])) := by
    rw [offer, if_neg fresh, empty]
    simp only [spelt]
    have short : byteLen [] ≤ state.remaining cap := Nat.zero_le _
    rw [if_pos short]
  rw [carried] at offered
  cases offered
  simp only [Gathering.carrying, append_nil, byteLen_append]
  rw [if_neg (by simpa using some_text)]
  exact full

theorem offer_within (within : byteLen state.text ≤ cap) (other : ¬ BareJoin cap state doc)
    (offered : offer blake3 cap state doc = .ok next) : byteLen next.text ≤ cap := by
  have piece_fits : ∀ (piece : List Char) (source : SegmentSource),
      (state.text = [] ∨ byteLen state.text + byteLen docJoin ≤ cap) →
        byteLen piece ≤ state.remaining cap → byteLen (state.carrying piece source).text ≤ cap := by
    intro piece source joins fits
    simp only [Gathering.carrying, Gathering.remaining, byteLen_append] at fits ⊢
    rcases joins with empty | room
    · rw [empty] at fits ⊢
      simp only [isEmpty_nil, if_true, byteLen_nil] at fits ⊢
      omega
    · split at fits
      · next empty =>
          rw [if_pos empty, byteLen_nil]
          omega
      · next filled =>
          rw [if_neg filled]
          omega
  have joins : (0 < state.remaining cap ∨ doc.bytes = some []) → doc.addr.text ∉ state.seen →
      state.text = [] ∨ byteLen state.text + byteLen docJoin ≤ cap := by
    intro either fresh
    by_cases empty : state.text = []
    · exact Or.inl empty
    · right
      rcases either with room | blank
      · rw [Gathering.remaining, if_neg (by simpa using empty)] at room
        omega
      · exact Nat.le_of_not_lt fun full => other ⟨blank, fresh, empty, full⟩
  rcases offer_cases blake3 cap state doc with ⟨reason, done⟩ |
    ⟨bytes, body, fresh, held, spelt, fits, done⟩ |
      ⟨bytes, body, head, tail, fresh, held, spelt, parts, lost, fits, done⟩
  · rw [done] at offered
    cases offered
    exact within
  · rw [done] at offered
    cases offered
    refine piece_fits body _ (joins ?_ fresh) fits
    by_cases blank : body = []
    · right
      have written := encode_of_decode spelt
      rw [blank] at written
      rw [held, ← written]
      rfl
    · left
      have some_bytes : byteLen body ≠ 0 := fun zero => blank (byteLen_eq_zero.mp zero)
      omega
  · rw [done] at offered
    cases offered
    have size := congrArg byteLen parts
    rw [byteLen_append] at size
    have wide := @Elision.byteLen_marker_le (byteLen tail) (byteLen body) (by omega)
    have some_marker : 0 < markerRoom (byteLen body) := by
      rw [markerRoom, byteLen_marker]
      omega
    refine piece_fits _ _ (joins (Or.inl (by omega)) fresh) ?_
    rw [byteLen_append]
    omega

theorem gathered_within {final : Gathering} (within : byteLen state.text ≤ cap)
    (gathered : docs.foldlM (offer blake3 cap) state = .ok final) :
    byteLen final.text ≤ cap ↔
      ∀ before doc after held, docs = before ++ doc :: after →
        before.foldlM (offer blake3 cap) state = .ok held → ¬ BareJoin cap held doc := by
  induction docs generalizing state with
  | nil =>
    cases gathered
    refine iff_of_true within fun before doc after held split => ?_
    cases before <;> cases split
  | cons doc docs ih =>
    have whole := gathered
    rw [foldlM_cons] at gathered
    obtain ⟨next, offered, rest⟩ := Outcome.bind_eq_ok.mp gathered
    by_cases bare : BareJoin cap state doc
    · refine iff_of_false ?_ fun none_bare => none_bare [] doc docs state rfl rfl bare
      have grown := @Outcome.foldlM_holds _ _ _ (offer blake3 cap)
        (fun _ held => cap < byteLen held.text) [] docs next final (offer_bareJoin bare offered)
        (fun _ _ _ _ beyond step => Nat.lt_of_lt_of_le beyond (offer_grows step)) rest
      exact Nat.not_le_of_lt grown
    · rw [ih (offer_within within bare offered) rest]
      constructor
      · intro none_bare before other after held split run
        cases before with
        | nil =>
          cases split
          cases run
          exact bare
        | cons first before =>
          cases split
          rw [foldlM_cons, offered] at run
          exact none_bare before other after held rfl run
      · intro none_bare before other after held split run
        refine none_bare (doc :: before) other after held (by rw [split]; rfl) ?_
        rw [foldlM_cons, offered]
        exact run

/-- A segment is its documents, in order and accounted for, within its cap exactly when no empty
document is joined to a text that leaves no room for the join. -/
theorem buildSegment_within_iff (usizeMax : Nat) (slot : SegmentSlot) (docs : List SourceDoc)
    (cap : UInt64) (seen : List (List Char)) (addressable : cap.toNat ≤ usizeMax) :
    ∃ segment skipped carried,
      buildSegment blake3 usizeMax slot docs cap seen = .ok (segment, skipped, carried) ∧
        ((∃ text, segment.bytes = Utf8.encode text ∧ Accounts blake3 docs text segment.sources ∧
            segment.bytes.length ≤ cap.toNat) ↔
          ∀ before doc after held, docs = before ++ doc :: after →
            before.foldlM (offer blake3 cap.toNat) ⟨[], [], [], seen⟩ = .ok held →
              ¬ BareJoin cap.toNat held doc) := by
  obtain ⟨final, gathered⟩ := exists_gathered blake3 cap.toNat docs ⟨[], [], [], seen⟩
  refine ⟨assembled blake3 slot (Utf8.encode final.text) final.sources, final.skipped, final.seen, ?_, ?_⟩
  · rw [buildSegment, if_neg (Nat.not_lt.mpr addressable), gathered]
    rfl
  · have small : cap.toNat ≤ u64Max := Nat.le_sub_one_of_lt cap.toNat_lt
    have account := @Outcome.foldlM_holds _ _ _ (offer blake3 cap.toNat)
      (fun done held => Accounts blake3 done held.text held.sources) [] docs _ final
      ⟨[], [], List.Sublist.refl [], List.Forall₂.nil, rfl, rfl⟩
      (fun _ _ _ _ held step => offer_accounts small held step) gathered
    have size : (assembled blake3 slot (Utf8.encode final.text) final.sources).bytes.length =
        byteLen final.text := length_encode final.text
    rw [← gathered_within (Nat.zero_le _) gathered, size]
    constructor
    · intro held
      obtain ⟨_, _, _, within⟩ := held
      exact within
    · exact fun within => ⟨final.text, rfl, account, within⟩

end Budget

section Documents

def someHash : Bytes → B3Hash := fun _ => ⟨List.replicate 32 0, Digest.zeros_sized⟩

def notes : SourceDoc := ⟨⟨['n', 'o', 't', 'e', 's'], by decide⟩, some [97, 98, 99]⟩

def blank : SourceDoc := ⟨⟨['b', 'l', 'a', 'n', 'k'], by decide⟩, some []⟩

/-- A document that is cut behind `notes`, and the segment they make. -/
def plan : SourceDoc := ⟨⟨['p', 'l', 'a', 'n'], by decide⟩, some (List.replicate 60 120)⟩

def notesAndPlan : Bytes :=
  [97, 98, 99, 10, 10] ++ List.replicate 18 120 ++ Utf8.encode "[truncated: 42 bytes]".toList

/-- The digests of two documents and of their segment, and of nothing else. -/
def notesHash (bytes : Bytes) : B3Hash :=
  if bytes = [97, 98, 99] then
    ⟨[0x64, 0x37, 0xb3, 0xac, 0x38, 0x46, 0x51, 0x33, 0xff, 0xb6, 0x3b, 0x75, 0x27,
      0x3a, 0x8d, 0xb5, 0x48, 0xc5, 0x58, 0x46, 0x5d, 0x79, 0xdb, 0x03, 0xfd, 0x35,
      0x9c, 0x6c, 0xd5, 0xbd, 0x9d, 0x85], rfl⟩
  else if bytes = List.replicate 60 120 then
    ⟨[0x07, 0x9e, 0xb9, 0xa6, 0x2e, 0x84, 0x41, 0xf7, 0x3b, 0xff, 0x02, 0xc4, 0x8c,
      0x73, 0x1c, 0x1c, 0xdd, 0x64, 0x72, 0xf9, 0x13, 0x31, 0x22, 0xa2, 0x0b, 0x28,
      0x80, 0x09, 0x85, 0x94, 0xe7, 0x29], rfl⟩
  else if bytes = notesAndPlan then
    ⟨[0x78, 0xe3, 0xf6, 0x05, 0xb8, 0x94, 0x22, 0x01, 0x14, 0xf8, 0x16, 0x79, 0x2b,
      0x6a, 0x94, 0x21, 0xa5, 0x6e, 0xc8, 0x1b, 0xe7, 0xc0, 0x44, 0xd0, 0xed, 0xc2,
      0x7e, 0x52, 0x02, 0x9b, 0xa8, 0xcf], rfl⟩
  else ⟨List.replicate 32 0, Digest.zeros_sized⟩

theorem buildSegment_within_notes :
    (∃ segment skipped carried,
      buildSegment notesHash u64Max .city [notes, plan] 44 [] = .ok (segment, skipped, carried) ∧
        ((∃ text, segment.bytes = Utf8.encode text ∧
            Accounts notesHash [notes, plan] text segment.sources ∧ segment.bytes.length ≤ 44) ↔
          ∀ before doc after held, [notes, plan] = before ++ doc :: after →
            before.foldlM (offer notesHash 44) ⟨[], [], [], []⟩ = .ok held → ¬ BareJoin 44 held doc)) ∧
      ∃ segment skipped carried,
        buildSegment notesHash u64Max .city [notes, plan] 44 [] = .ok (segment, skipped, carried) ∧
          segment.bytes = notesAndPlan :=
  ⟨buildSegment_within_iff u64Max .city [notes, plan] 44 [] (by decide), _, _, _, rfl,
    by decide +kernel⟩

/-- An empty document behind one that fills its slot takes the segment past its cap. -/
theorem buildSegment_past_cap :
    ∃ segment skipped carried,
      buildSegment someHash u64Max .city [notes, blank] 3 [] = .ok (segment, skipped, carried) ∧
        segment.bytes = [97, 98, 99, 10, 10] ∧ (3 : UInt64).toNat < segment.bytes.length :=
  ⟨_, _, _, rfl, by decide +kernel, by decide +kernel⟩

end Documents

end Prefix

end Sprawling
