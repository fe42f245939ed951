import Sprawling.Base.Effect
import Sprawling.Base.OrdMap
import Sprawling.Kernel.Event

/-! A disk that loses power: two planes for every file, and directory entries of their own. -/

namespace Sprawling

open List

/-- A file: what survives power loss, what the running process observes, and whether its
directory entry survives. -/
structure FileState where
  durable : Bytes
  live : Bytes
  durableEntry : Bool

/-- What the disk does with one operation: it is done; it is refused, an append perhaps with
some of its bytes landed; or power is lost during it, with this many bytes of a torn tail. -/
inductive Outcome where
  | done
  | refused (landed : Option Nat)
  | powerLost (torn : Nat)

namespace FaultFs

/-- The file after power loss: where the live plane first differs from the durable one, `torn`
bytes of it have reached the platter. -/
def settle (torn : Nat) (file : FileState) : FileState :=
  let common := ((file.durable.zip file.live).takeWhile fun pair => pair.1 == pair.2).length
  let delta := file.live.drop common
  let reached := common + min torn delta.length
  let settled := file.live.take reached ++ file.durable.drop reached
  { durable := settled, live := settled, durableEntry := file.durableEntry }

section Disk

variable {κ : Type} [Ord κ] [Std.TransOrd κ] [Std.LawfulEqOrd κ]

/-- Power loss: entries that were not made durable are gone, and every file settles. -/
def cut (torn : Nat) (files : OrdMap κ FileState) : OrdMap κ FileState :=
  (files.filter fun _ file => file.durableEntry).map fun _ file => settle torn file

/-- The file at `path`, or the one an append creates there. -/
def fileAt (files : OrdMap κ FileState) (path : κ) : FileState :=
  (files[path]?).getD { durable := [], live := [], durableEntry := false }

def extend (files : OrdMap κ FileState) (path : κ) (bytes : Bytes) : OrdMap κ FileState :=
  let file := fileAt files path
  files.insert path { file with live := file.live ++ bytes }

/-- The length set: cut, or extended with zero bytes. -/
def resize (bytes : Bytes) (len : Nat) : Bytes :=
  bytes.take len ++ List.replicate (len - bytes.length) 0

def promoteEntries (files : OrdMap κ FileState) : OrdMap κ FileState :=
  files.map fun _ file => { file with durableEntry := true }

/-- The entries of one directory made durable. -/
def promoteIn (inDir : κ → Bool) (files : OrdMap κ FileState) : OrdMap κ FileState :=
  files.map fun path file => if inDir path then { file with durableEntry := true } else file

@[simp] theorem get_cut (torn : Nat) (files : OrdMap κ FileState) (path : κ) :
    (cut torn files)[path]? =
      ((files[path]?).filter fun file => file.durableEntry).map (settle torn) := by
  rw [cut, Std.ExtTreeMap.getElem?_map, Std.ExtTreeMap.getElem?_filter']

@[simp] theorem get_promoteIn (inDir : κ → Bool) (files : OrdMap κ FileState) (path : κ) :
    (promoteIn inDir files)[path]? =
      (files[path]?).map fun file =>
        if inDir path then { file with durableEntry := true } else file := by
  rw [promoteIn, Std.ExtTreeMap.getElem?_map]

end Disk

theorem common_self (bytes : Bytes) :
    ((bytes.zip bytes).takeWhile fun pair => pair.1 == pair.2).length = bytes.length := by
  induction bytes with
  | nil => rfl
  | cons byte bytes ih => simpa using ih

theorem settle_synced (torn : Nat) {file : FileState} (synced : file.durable = file.live) :
    settle torn file = file := by
  have common := common_self file.live
  unfold settle
  simp only [synced, common, drop_length, length_nil, Nat.min_zero, Nat.add_zero,
    take_length, append_nil]
  cases file
  cases synced
  rfl

section Planes

variable {file : FileState}

/-- How far the two planes agree. -/
def common (file : FileState) : Nat :=
  ((file.durable.zip file.live).takeWhile fun pair => pair.1 == pair.2).length

theorem length_le_common {lead : Bytes} (synced : lead <+: file.durable) (written : lead <+: file.live) :
    lead.length ≤ common file := by
  obtain ⟨first, synced⟩ := synced
  obtain ⟨second, written⟩ := written
  have agree : ∀ pair ∈ lead.zip lead, (pair.1 == pair.2) = true := by
    intro pair member
    rw [zip_eq_zipWith, zipWith_self, mem_map] at member
    obtain ⟨byte, -, same⟩ := member
    rw [← same]
    exact beq_self_eq_true byte
  rw [common, ← synced, ← written, zip_append rfl, takeWhile_append_of_pos agree,
    length_append, length_zip, Nat.min_self]
  exact Nat.le_add_right _ _

theorem common_le : common file ≤ file.durable.length ∧ common file ≤ file.live.length := by
  have bound : common file ≤ (file.durable.zip file.live).length :=
    (List.takeWhile_prefix _).length_le
  rw [length_zip] at bound
  omega

theorem settle_live (torn : Nat) (file : FileState) :
    ∃ reached, common file ≤ reached ∧ reached ≤ file.live.length ∧
      (settle torn file).live = file.live.take reached ++ file.durable.drop reached ∧
      (settle torn file).durable = (settle torn file).live := by
  have bounds := @common_le file
  refine ⟨common file + min torn (file.live.drop (common file)).length, Nat.le_add_right _ _, ?_, rfl,
    rfl⟩
  rw [length_drop]
  omega

theorem settle_of_grown (torn : Nat) (grown : file.durable <+: file.live) :
    (settle torn file).live <+: file.live := by
  obtain ⟨reached, past, -, live, -⟩ := settle_live torn file
  have enough := length_le_common prefix_rfl grown
  rw [live, drop_eq_nil_of_le (by omega), append_nil]
  exact take_prefix _ _

theorem settle_of_cut (torn : Nat) (cut : file.live <+: file.durable) :
    (settle torn file).live = file.durable := by
  obtain ⟨reached, past, within, live, -⟩ := settle_live torn file
  have enough := length_le_common cut prefix_rfl
  have reach : reached = file.live.length := by omega
  obtain ⟨more, shape⟩ := cut
  rw [live, reach, take_length, ← shape, drop_left]

end Planes

end FaultFs

end Sprawling
