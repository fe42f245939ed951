import Sprawling.Base.Numeral
import Sprawling.Storage.Reading

/-! The order of segment names, and the segments of a directory after one of them changes. -/

namespace Sprawling

open List Numeral

namespace Segment

theorem length_padded (width value : Nat) : (padded width value).length = width := by
  induction width generalizing value with
  | zero => rfl
  | succ width ih => rw [padded, length_append, ih, length_singleton]

theorem compare_padded (width : Nat) {first second : Nat} (low : first < 10 ^ width)
    (high : second < 10 ^ width) :
    compare (padded width first) (padded width second) = compare first second := by
  induction width generalizing first second with
  | zero =>
    have zero : first = second := by omega
    rw [zero, Std.ReflOrd.compare_self, Std.ReflOrd.compare_self]
  | succ width ih =>
    have shorter : 10 ^ (width + 1) = 10 ^ width * 10 := Nat.pow_succ 10 width
    rw [padded, padded, compare_append (by rw [length_padded, length_padded]),
      ih (by omega) (by omega), compare_digitChar (Nat.mod_lt _ (by decide)) (Nat.mod_lt _ (by decide)),
      ← compare_tens]

theorem compare_segmentFileName (first second : Seq) :
    compare (segmentFileName first) (segmentFileName second) = compare first.value second.value := by
  have wide : 2 ^ 64 < 10 ^ 20 := by decide
  rw [segmentFileName, segmentFileName, append_assoc, append_assoc, compare_append_left,
    compare_append (by rw [length_padded, length_padded]),
    compare_padded 20 (Nat.lt_trans first.lt wide) (Nat.lt_trans second.lt wide),
    Std.ReflOrd.compare_self, Ordering.then_eq]

end Segment

namespace Directory

/-- Names in strictly ascending order. -/
def Ascending (segments : List (FileName × Bytes)) : Prop :=
  segments.Pairwise fun first second => compare first.1 second.1 = .lt

theorem ascending_segments (dir : Directory) : Ascending dir.segments :=
  (Std.ExtTreeMap.ordered_keys_toList).filter _

variable {dir : Directory}

theorem mem_segments {name : FileName} {content : Bytes} :
    (name, content) ∈ dir.segments ↔
      Segment.isSegment name = true ∧ dir[name]? = some content := by
  rw [segments, mem_filter, Std.ExtTreeMap.mem_toList_iff_getElem?_eq_some]
  exact And.comm

theorem segments_eq {listed : List (FileName × Bytes)} (sorted : Ascending listed)
    (members : ∀ name content, (name, content) ∈ listed ↔
      Segment.isSegment name = true ∧ dir[name]? = some content) : dir.segments = listed := by
  have distinct : ∀ {list : List (FileName × Bytes)}, Ascending list → list.Nodup := by
    intro list ascending
    refine ascending.imp fun {first second} less same => ?_
    rw [same, Std.ReflOrd.compare_self] at less
    cases less
  have sameMembers : dir.segments.Perm listed := by
    rw [perm_ext_iff_of_nodup (distinct dir.ascending_segments) (distinct sorted)]
    rintro ⟨name, content⟩
    rw [mem_segments, members]
  refine List.Perm.eq_of_pairwise (fun first second _ _ less more => ?_) dir.ascending_segments sorted
    sameMembers
  rw [Std.OrientedOrd.eq_swap, less] at more
  cases more

section Last

variable {dir : Directory} {front : List (FileName × Bytes)} {name : FileName} {content : Bytes}

variable {other : FileName}

theorem get_of_mem {bytes : Bytes} (member : (other, bytes) ∈ dir.segments) :
    dir[other]? = some bytes := (mem_segments.mp member).2

theorem below_last (shape : dir.segments = front ++ [(name, content)]) :
    ∀ segment ∈ front, compare segment.1 name = .lt := by
  have sorted := dir.ascending_segments
  rw [shape, Ascending, pairwise_append] at sorted
  intro segment member
  exact sorted.2.2 segment member (name, content) (mem_singleton_self _)

theorem ascending_front (shape : dir.segments = front ++ [(name, content)]) : Ascending front := by
  have sorted := dir.ascending_segments
  rw [shape, Ascending, pairwise_append] at sorted
  exact sorted.1

theorem ne_of_below (below : compare other name = .lt) : other ≠ name := by
  intro same
  rw [same, Std.ReflOrd.compare_self] at below
  cases below

theorem segments_erase_last (shape : dir.segments = front ++ [(name, content)]) :
    segments (dir.erase name) = front := by
  have below := below_last shape
  apply segments_eq (ascending_front shape)
  intro other held
  rw [OrdMap.get_erase]
  have members : (other, held) ∈ dir.segments ↔ _ := mem_segments
  rw [shape, mem_append, mem_singleton, Prod.mk.injEq] at members
  constructor
  · intro member
    rw [if_neg (ne_of_below (below _ member)).symm]
    exact members.mp (.inl member)
  · rintro ⟨segment, found⟩
    split at found
    · cases found
    · next different =>
        rcases members.mpr ⟨segment, found⟩ with member | ⟨equal, -⟩
        · exact member
        · exact absurd equal.symm different

end Last

end Directory

end Sprawling
