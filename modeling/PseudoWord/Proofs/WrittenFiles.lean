import PseudoWord.Proofs.FilePlaces
import PseudoWord.Proofs.KeptLines
import PseudoWord.Storage

namespace PseudoWord

namespace FileTree

variable {t after : FileTree} {p : Path}

/-- What was written is what is read. -/
theorem read_of_write {bytes : Bytes} {time : Nat} (written : t.write p bytes time = .ok after) :
    after.read p = .ok bytes := by
  obtain ⟨place, found, rfl⟩ := write_eq_ok_iff.mp written
  exact read_eq_ok_iff.mpr ⟨place, time, locate_put_self found bytes time⟩

theorem store_eq_ok_iff {bytes : Bytes} {time : Nat} :
    t.store p bytes time = .ok after ↔ t.write p bytes time = .ok after := by
  rw [store]
  cases t.write p bytes time with
  | error cause =>
    constructor
    · intro impossible
      cases impossible
    · intro impossible
      cases impossible
  | ok files =>
    constructor
    · intro stored
      cases stored
      rfl
    · intro written
      cases written
      rfl

theorem writeLines_eq_ok_iff {lines : List String} {time : Nat} :
    t.writeLines p lines time = .ok after ↔
      t.write p (joinLines lines).toUTF8.data.toList time = .ok after := store_eq_ok_iff

theorem canWrite_iff_store (t : FileTree) (p : Path) (bytes : Bytes) (time : Nat) :
    t.CanWrite p ↔ ∃ after, t.store p bytes time = .ok after := by
  simp only [store_eq_ok_iff]
  constructor
  · rintro ⟨place, spot, located, writable⟩
    exact ⟨_, write_of_writable located writable bytes time⟩
  · rintro ⟨after, written⟩
    obtain ⟨place, spot, located, writable, _⟩ := write_eq_ok written
    exact ⟨place, spot, located, writable⟩

theorem canWrite_iff (t : FileTree) (p : Path) (lines : List String) (time : Nat) :
    t.CanWrite p ↔ ∃ after, t.writeLines p lines time = .ok after :=
  t.canWrite_iff_store p (joinLines lines).toUTF8.data.toList time

/-- The bytes of a text are read as this text. -/
theorem fromUTF8?_bytes (text : String) :
    String.fromUTF8? text.toUTF8.data.toList.toByteArray = some text := by
  have bytes : text.toUTF8.data.toList.toByteArray = text.toUTF8 :=
    ByteArray.ext (by rw [List.data_toByteArray, Array.toArray_toList])
  rw [bytes, String.toUTF8_eq_toByteArray, String.fromUTF8?, dif_pos text.isValidUTF8]
  rfl

theorem readLines_of_writeLines {lines : List String} {time : Nat}
    (written : t.writeLines p lines time = .ok after) :
    after.readLines p = splitLines (joinLines lines) := by
  have stored := read_of_write (writeLines_eq_ok_iff.mp written)
  have text : after.readText p = .ok (joinLines lines) := by
    rw [readText, stored]
    simp only [bind, Except.bind, fromUTF8?_bytes]
    rfl
  rw [readLines, text]

/-- Lines can be written wherever a file can be, and then each is read back cut at its line feeds, without
a carriage return at the end of a piece. So they are read as they were written exactly when none of them
holds a line feed or ends with a carriage return. -/
theorem lines_kept_iff (writable : t.CanWrite p) (lines : List String) (time : Nat) :
    ∃ after, t.writeLines p lines time = .ok after ∧
      after.readLines p = lines.flatMap readBack ∧
      (after.readLines p = lines ↔
        ∀ line ∈ lines, '\n' ∉ line.toList ∧ line.toList.getLast? ≠ some '\r') := by
  obtain ⟨after, written⟩ := (t.canWrite_iff p lines time).mp writable
  refine ⟨after, written, ?_⟩
  rw [readLines_of_writeLines written]
  exact ⟨splitLines_joinLines lines, splitLines_joinLines_eq_iff lines⟩

/-- A carriage return inside a line and an empty line are kept, one at the end of a line is not. -/
theorem lines_kept_iff_returns :
    empty.CanWrite (.ofString "words.txt") ∧
      (∃ after, empty.writeLines (.ofString "words.txt") ["ka\rmo", "", "\rri"] 0 = .ok after ∧
        after.readLines (.ofString "words.txt") = ["ka\rmo", "", "\rri"]) ∧
      ∃ after, empty.writeLines (.ofString "words.txt") ["ka", "mo\r"] 0 = .ok after ∧
        after.readLines (.ofString "words.txt") ≠ ["ka", "mo\r"] := by
  have writable : empty.CanWrite (.ofString "words.txt") :=
    ⟨["words.txt".toList], .vacant ["words.txt".toList] false, rfl, rfl⟩
  obtain ⟨after, written, _, kept⟩ := lines_kept_iff writable ["ka\rmo", "", "\rri"] 0
  obtain ⟨other, otherWritten, _, lost⟩ := lines_kept_iff writable ["ka", "mo\r"] 0
  refine ⟨writable, ⟨after, written, kept.mpr (by decide)⟩, other, otherWritten, fun same => ?_⟩
  exact absurd (lost.mp same) (by decide)

end FileTree

end PseudoWord
