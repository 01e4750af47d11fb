import PseudoWord.Proofs.SearchExact

namespace PseudoWord

namespace Search

variable {g : Graph} {n : Node} {word : String} {tried added : List Branch} {last : Search}

/-- What was tried and what waits come from the first branch and from the points of the word. -/
theorem Course.length_le (course : Course g (start n word.toList) tried added last) :
    tried.length + last.pending.length ≤ 1 + g.size * (word.utf8ByteSize + 1) := by
  have paid := course.measure (within_start n word.toList)
  have few := card_unseen_le g word.toList (start n word.toList)
  have bytes := length_le_utf8ByteSize word.toList
  rw [String.ofList_toList] at bytes
  have more : g.size * (word.toList.length + 1) ≤ g.size * (word.utf8ByteSize + 1) :=
    Nat.mul_le_mul_left g.size (Nat.succ_le_succ bytes)
  have one : (start n word.toList).pending.length = 1 := rfl
  rw [one] at paid
  omega

/-- No link is followed to a node with the same remainder twice, nor back to where the search began. -/
theorem Course.reached_nodup (course : Course g (start n word.toList) tried added last) :
    ((n.id, word.toList) :: added.map (fun b => (b.reached, b.rest))).Nodup := by
  obtain ⟨distinct, fresh⟩ := course.points_nodup
  refine List.nodup_cons.mpr ⟨fun member => ?_, ?_⟩
  · obtain ⟨b, inside, same⟩ := List.mem_map.mp member
    have point : b.point = (n.id, word.toList.length) :=
      congrArg (fun reached => (reached.1, reached.2.length)) same
    exact fresh b inside (point ▸ (invariant_start g n word.toList).marked)
  · have lengths : added.map Branch.point =
        (added.map (fun b => (b.reached, b.rest))).map (fun reached => (reached.1, reached.2.length)) := by
      rw [List.map_map]
      rfl
    exact (lengths ▸ distinct).of_map _

/-- A search goes on as long as it has no answer. -/
theorem answers_or_next (g : Graph) (s : Search) :
    (∃ answer, s.Answers answer) ∨ ∃ b added last, Course g s [b] added last := by
  obtain ⟨pending, seen⟩ := s
  cases pending with
  | nil => exact .inl ⟨false, .exhausted seen⟩
  | cons b pending =>
    cases accepts : b.accepts with
    | true => exact .inl ⟨true, .accepted pending seen accepts⟩
    | false =>
      obtain ⟨fresh, front, _, _⟩ := exists_fresh g b.moves ⟨pending, seen⟩
      exact .inr ⟨b, _, _, .next accepts (fun _ => Iff.rfl) front (.stay _)⟩

end Search

/-- The acceptor comes to an end, for any node, graph and word. A search for the word, in whatever order
it follows the links, goes on until it has an answer, and this is the one that the acceptor gives; it never
has more branches tried or waiting than there are nodes for each remainder and the first branch; and it
puts in front no two branches with the same remainder that were reached under the same id. -/
theorem Node.search_ends (n : Node) (g : Graph) (word : String) :
    (∃ tried added last, Search.Course g (.start n word.toList) tried added last ∧
        last.Answers (n.canMake g word)) ∧
      ∀ tried added last, Search.Course g (.start n word.toList) tried added last →
        tried.length + last.pending.length ≤ 1 + g.size * (word.utf8ByteSize + 1) ∧
        ((n.id, word.toList) :: added.map (fun b => (b.reached, b.rest))).Nodup ∧
        (last.Answers (n.canMake g word) ∨ ∃ b further later, Search.Course g last [b] further later) := by
  refine ⟨Search.exists_answered n g word, fun tried added last course =>
    ⟨course.length_le, course.reached_nodup, ?_⟩⟩
  refine (Search.answers_or_next g last).imp_left fun ⟨answer, answers⟩ => ?_
  have agree := (course.answer_iff answers).trans
    ((n.canMake_iff_avoiding g word).trans (by rw [String.length_toList])).symm
  exact Bool.eq_iff_iff.mpr agree ▸ answers

end PseudoWord
