import PseudoWord.Files.Lines

namespace PseudoWord

/-- A line that is read back as it was written: it has no line feed, and no carriage return at its
end. -/
def KeepsLine (line : List Char) : Prop := '\n' ∉ line ∧ line.getLast? ≠ some '\r'

/-- The lines as which a line is read once it was written: it is cut at its line feeds, and each piece
loses a carriage return at its end. -/
def readBack (line : String) : List String :=
  (line.toList.splitOn '\n').map (fun piece => String.ofList (dropReturn piece))

theorem splitOn_joined (lines : List (List Char)) :
    (lines.flatMap (fun line => line ++ ['\n'])).splitOn '\n' =
      lines.flatMap (fun line => line.splitOn '\n') ++ [[]] := by
  induction lines with
  | nil => rfl
  | cons line rest ih =>
    rw [List.flatMap_cons, List.flatMap_cons, List.append_assoc, List.singleton_append,
      List.splitOn_append_cons_self, ih, List.append_assoc]

theorem linesOfPieces_append (pieces : List (List Char)) :
    linesOfPieces (pieces ++ [[]]) = pieces.map dropReturn := by
  induction pieces with
  | nil => rfl
  | cons piece rest ih =>
    have more : rest ++ [[]] ≠ [] := List.append_ne_nil_of_right_ne_nil rest (List.cons_ne_nil _ _)
    obtain ⟨next, later, split⟩ := List.exists_cons_of_ne_nil more
    rw [List.cons_append, List.map_cons, ← ih, split, linesOfPieces]
    intro impossible
    cases impossible

/-- Lines that were written are read back one after the other. -/
theorem splitLines_joinLines (lines : List String) :
    splitLines (joinLines lines) = lines.flatMap readBack := by
  have pieces := splitOn_joined (lines.map String.toList)
  rw [List.flatMap_map, List.flatMap_map] at pieces
  rw [splitLines, joinLines, String.toList_ofList, pieces, linesOfPieces_append, List.map_map,
    List.map_flatMap]
  rfl

theorem dropReturn_eq_self_iff (line : List Char) :
    dropReturn line = line ↔ line.getLast? ≠ some '\r' := by
  rw [dropReturn]
  split
  · rename_i ended
    refine iff_of_false (fun same => ?_) (fun other => other ended)
    have shorter := congrArg List.length same
    rw [List.length_dropLast] at shorter
    have filled := List.length_pos_of_mem (List.mem_of_getLast? ended)
    omega
  · rename_i other
    exact iff_of_true rfl other

theorem readBack_ne_nil (line : String) : readBack line ≠ [] :=
  mt List.map_eq_nil_iff.mp (List.splitOn_ne_nil '\n' line.toList)

theorem readBack_eq_singleton_iff (line : String) : readBack line = [line] ↔ KeepsLine line.toList := by
  constructor
  · intro kept
    have plain : '\n' ∉ line.toList := by
      intro inside
      obtain ⟨before, after, cut⟩ := List.append_of_mem inside
      have pieces := congrArg List.length kept
      have first := List.length_pos_iff.mpr (List.splitOn_ne_nil '\n' before)
      have second := List.length_pos_iff.mpr (List.splitOn_ne_nil '\n' after)
      rw [readBack, cut, List.splitOn_append_cons_self, List.length_map, List.length_append,
        List.length_singleton] at pieces
      omega
    rw [readBack, List.splitOn_eq_singleton plain] at kept
    have same : dropReturn line.toList = line.toList := by
      have texts := congrArg String.toList (List.singleton_inj.mp kept)
      rwa [String.toList_ofList] at texts
    exact ⟨plain, (dropReturn_eq_self_iff _).mp same⟩
  · rintro ⟨plain, unreturned⟩
    rw [readBack, List.splitOn_eq_singleton plain, List.map_singleton,
      (dropReturn_eq_self_iff _).mpr unreturned, String.ofList_toList]

/-- Where every item is replaced by at least one, the list stays the same only if each item does. -/
theorem flatMap_eq_self_iff {α : Type} {f : α → List α} (filled : ∀ a, f a ≠ []) (items : List α) :
    items.flatMap f = items ↔ ∀ a ∈ items, f a = [a] := by
  have longer (items : List α) : items.length ≤ (items.flatMap f).length := by
    induction items with
    | nil => exact Nat.le_refl 0
    | cons a rest ih =>
      have first := List.length_pos_iff.mpr (filled a)
      rw [List.flatMap_cons, List.length_append, List.length_cons]
      omega
  induction items with
  | nil => exact iff_of_true rfl fun _ member => absurd member List.not_mem_nil
  | cons a rest ih =>
    rw [List.flatMap_cons, List.forall_mem_cons]
    obtain ⟨b, more, first⟩ := List.exists_cons_of_ne_nil (filled a)
    constructor
    · intro same
      have length := congrArg List.length same
      have room := longer rest
      rw [first, List.cons_append] at same
      rw [first, List.length_append, List.length_cons, List.length_cons] at length
      have alone : more = [] := List.eq_nil_of_length_eq_zero (by omega)
      subst alone
      obtain ⟨rfl, later⟩ := List.cons.inj same
      exact ⟨first, ih.mp later⟩
    · rintro ⟨kept, later⟩
      rw [kept, ih.mpr later, List.singleton_append]

theorem splitLines_joinLines_eq_iff (lines : List String) :
    splitLines (joinLines lines) = lines ↔ ∀ line ∈ lines, KeepsLine line.toList := by
  rw [splitLines_joinLines, flatMap_eq_self_iff readBack_ne_nil]
  exact forall₂_congr fun line _ => readBack_eq_singleton_iff line

end PseudoWord
