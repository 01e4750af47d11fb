import PseudoWord.Proofs.FilePlaces
import PseudoWord.Proofs.SnapshotRoundTrip
import PseudoWord.Proofs.TableSizes

namespace PseudoWord

namespace Path

variable {p : Path}

theorem byteCount_eq (text : List Char) : byteCount text = String.utf8Len text := by
  have whole (text : List Char) (count : Nat) :
      text.foldl (fun bytes c => bytes + c.utf8Size) count = count + String.utf8Len text := by
    induction text generalizing count with
    | nil => rfl
    | cons c rest ih =>
      rw [List.foldl_cons, ih, String.utf8Len_cons]
      omega
  exact (whole text 0).trans (Nat.zero_add _)

theorem mem_of_mem_dropIdle {parts : List PathPart} {part : PathPart} (member : part ∈ dropIdle parts) :
    part ∈ parts := by
  fun_induction dropIdle parts with
  | case1 first before idle ih => exact List.mem_cons_of_mem first (ih member)
  | case2 first before said => exact member
  | case3 => exact member

theorem sublist_text_of_mem {part : PathPart} (member : part ∈ p.parts) : part.Sublist p.text := by
  obtain ⟨index, atIndex⟩ := List.mem_iff_getElem?.mp member
  rw [← List.getElem?_intersperse_two_mul] at atIndex
  exact List.sublist_flatten_of_mem (List.mem_of_getElem? atIndex)

theorem stemOf_sublist (name : PathPart) : (stemOf name).Sublist name := by
  rw [stemOf]
  split
  · rename_i before cut
    split
    · exact .refl name
    · have back : before.Sublist name.reverse :=
        (List.sublist_cons_self _ before).trans (cut ▸ List.dropWhile_sublist _)
      have turned := List.reverse_sublist.mpr back
      rwa [List.reverse_reverse] at turned
  · exact .refl name

theorem stem_sublist {stem : PathPart} (named : p.stem? = some stem) : stem.Sublist p.text := by
  obtain ⟨⟨before, name⟩, cut, rfl⟩ := Option.map_eq_some_iff.mp named
  rw [splitName?] at cut
  split at cut
  · rename_i last earlier kept
    split at cut
    · cases cut
    · cases cut
      have member : name ∈ p.parts :=
        List.mem_reverse.mp (mem_of_mem_dropIdle (kept ▸ List.mem_cons_self))
      exact (stemOf_sublist name).trans (sublist_text_of_mem member)
  · cases cut

/-- The name of a language is no longer than the path of its table. -/
theorem utf8ByteSize_languageName_le (p : Path) : p.languageName.utf8ByteSize ≤ byteCount p.text := by
  rw [languageName, String.utf8ByteSize_ofList, byteCount_eq]
  cases named : p.stem? with
  | none => exact Nat.zero_le _
  | some stem => exact String.utf8Len_le_of_sublist (stem_sublist named)

end Path

namespace FileTree

variable {t : FileTree} {p : Path}

theorem short_of_locate {spot : Spot} (located : t.locate p = .ok spot) : p.isLong = false := by
  rw [locate, pathFault?] at located
  cases long : p.isLong with
  | false => rfl
  | true =>
    rw [long] at located
    cases null : p.hasNull with
    | false =>
      rw [null] at located
      cases located
    | true =>
      rw [null] at located
      cases located

theorem fitsText_languageName {spot : Spot} (located : t.locate p = .ok spot) : FitsText p.languageName := by
  have short := short_of_locate located
  have named := p.utf8ByteSize_languageName_le
  have size : UInt64.size = 18446744073709551616 := rfl
  rw [Path.isLong, decide_eq_false_iff_not] at short
  rw [FitsText]
  omega

theorem utf8Len_splitLines_le (text : String) :
    String.utf8Len ((splitLines text).map String.toList).flatten ≤ text.utf8ByteSize := by
  have pieces := (flatten_linesOfPieces_sublist (text.toList.splitOn '\n')).trans
    (flatten_splitOn_sublist '\n' text.toList)
  rw [splitLines, List.map_map, Function.comp_def]
  simp only [String.toList_ofList, List.map_id']
  rw [← String.utf8Len_toList]
  exact String.utf8Len_le_of_sublist pieces

theorem utf8ByteSize_of_fromUTF8? {bytes : Bytes} {text : String}
    (decoded : String.fromUTF8? bytes.toByteArray = some text) : text.utf8ByteSize = bytes.length := by
  rw [String.fromUTF8?] at decoded
  split at decoded
  · cases decoded
    exact bytes.size_toByteArray
  · cases decoded

/-- The lines of a file come to no more bytes than the file has. -/
theorem utf8Len_readLines_le {bytes : Bytes} (held : t.read p = .ok bytes) :
    String.utf8Len ((t.readLines p).map String.toList).flatten ≤ bytes.length := by
  rw [readLines, readText, held]
  simp only [bind, Except.bind]
  cases decoded : String.fromUTF8? bytes.toByteArray with
  | none => exact Nat.zero_le _
  | some text => exact utf8ByteSize_of_fromUTF8? decoded ▸ utf8Len_splitLines_le text

end FileTree

namespace Graph

variable {t : FileTree} {p : Path}

theorem fits_load {bytes : Bytes} (held : t.read p = .ok bytes) (small : bytes.length < UInt64.size) :
    (load t p).Fits := by
  obtain ⟨place, modified, located⟩ := FileTree.read_eq_ok_iff.mp held
  exact fits_ofTable (Nat.lt_of_le_of_lt (FileTree.utf8Len_readLines_le held) small)
    (FileTree.fitsText_languageName located)

theorem restored_load (t : FileTree) (p : Path) : (load t p).restored = load t p := by
  refine restored_eq_self (fun n inside => ?_) rfl
  obtain ⟨id, found⟩ := (load t p).mem_nodeList_iff.mp inside
  exact (cutFrom_ofTable (t.readLines p) id n found).runs

end Graph

end PseudoWord
