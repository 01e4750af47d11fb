import PseudoWord.Proofs.SnapshotRoundTrip

namespace PseudoWord

namespace Reader

variable {α β : Type}

/-- Unless the bytes run out, a reader makes the same of them when more bytes follow, and leaves these
where they are. -/
def LeftToRight (r : Reader α) : Prop :=
  ∀ front back, r.run front = .error .endOfInput ∨
    r.run (front ++ back) = (r.run front).map (fun read => (read.1, read.2 ++ back))

section Combined

variable {r : Reader α}

theorem leftToRight_pure (a : α) : LeftToRight (pure a : Reader α) := fun _ _ => .inr rfl

theorem leftToRight_throw (cause : SnapshotError) : LeftToRight (throw cause : Reader α) :=
  fun _ _ => .inr rfl

theorem LeftToRight.bind {f : α → Reader β} (first : LeftToRight r) (later : ∀ a, LeftToRight (f a)) :
    LeftToRight (r >>= f) := by
  intro front back
  rw [StateT.run_bind, StateT.run_bind]
  rcases first front back with out | same
  · rw [out]
    exact .inl rfl
  · rw [same]
    cases r.run front with
    | error cause => exact .inr rfl
    | ok read => exact later read.1 read.2 back

theorem LeftToRight.map (first : LeftToRight r) (f : α → β) :
    LeftToRight (do return f (← r)) := first.bind fun a => leftToRight_pure (f a)

/-- Bytes that are read as a whole cannot be read when some of them are missing at the end. -/
theorem LeftToRight.run_of_cut (steady : LeftToRight r) {front back : Bytes} {a : α}
    (reads : Reads r (front ++ back) a) (cut : back ≠ []) : r.run front = .error .endOfInput := by
  refine (steady front back).resolve_right fun same => ?_
  have whole := reads []
  rw [List.append_nil, same] at whole
  cases read : r.run front with
  | error cause =>
    rw [read] at whole
    cases whole
  | ok taken =>
    rw [read] at whole
    obtain ⟨_, nothing⟩ := Prod.mk.inj (Except.ok.inj whole)
    exact cut (List.append_eq_nil_iff.mp nothing).2

end Combined

theorem leftToRight_byte : LeftToRight byte := by
  intro front back
  cases front with
  | nil => exact .inl rfl
  | cons first rest => exact .inr rfl

theorem leftToRight_take (count : Nat) : LeftToRight (take count) := by
  intro front back
  change take count front = _ ∨ take count (front ++ back) = (take count front).map _
  by_cases short : front.length < count
  · rw [take, if_pos short]
    exact .inl rfl
  · have enough := Nat.not_lt.mp short
    have longer : ¬(front ++ back).length < count := by
      rw [List.length_append]
      omega
    rw [take, take, if_neg short, if_neg longer, List.splitAt_eq, List.splitAt_eq,
      List.take_append_of_le_length enough, List.drop_append_of_le_length enough]
    exact .inr rfl

theorem leftToRight_groups (left : Nat) : LeftToRight (groups left) := by
  induction left with
  | zero => exact leftToRight_throw .longVarint
  | succ left ih =>
    refine leftToRight_byte.bind fun first => ?_
    split
    · split
      · exact leftToRight_throw .longVarint
      · exact leftToRight_pure _
    · exact ih.map _

theorem leftToRight_word : LeftToRight word := (leftToRight_groups 10).map _

theorem leftToRight_flag : LeftToRight flag := by
  refine leftToRight_byte.bind fun first => ?_
  split
  · exact leftToRight_pure false
  · exact leftToRight_pure true
  · exact leftToRight_throw .badBool

theorem leftToRight_text : LeftToRight text := by
  refine (leftToRight_groups 10).bind fun count => (leftToRight_take count).bind fun bytes => ?_
  split
  · exact leftToRight_pure _
  · exact leftToRight_throw .badText

section Maps

variable {item : Reader α}

theorem leftToRight_entries (steady : LeftToRight item) (left : Nat) (m : KeyMap α) :
    LeftToRight (entries item left m) := by
  induction left generalizing m with
  | zero => exact leftToRight_pure m
  | succ left ih => exact leftToRight_word.bind fun key => steady.bind fun value => ih _

theorem leftToRight_map (steady : LeftToRight item) : LeftToRight (map item) :=
  (leftToRight_groups 10).bind fun count => leftToRight_entries steady count .empty

theorem leftToRight_weightedSet (steady : LeftToRight item) : LeftToRight (weightedSet item) :=
  (leftToRight_map steady).bind fun _ => leftToRight_word.map _

end Maps

theorem leftToRight_nodeId : LeftToRight nodeId := leftToRight_word.map _

theorem leftToRight_node : LeftToRight node :=
  leftToRight_nodeId.bind fun _ => (leftToRight_weightedSet leftToRight_text).bind fun _ =>
    (leftToRight_weightedSet leftToRight_nodeId).bind fun _ => leftToRight_flag.bind fun _ =>
      leftToRight_flag.map _

theorem leftToRight_graph : LeftToRight graph :=
  leftToRight_text.bind fun _ => (leftToRight_map leftToRight_node).map _

end Reader

namespace Graph

variable {g : Graph}

theorem snapshot_ne_nil (g : Graph) : g.snapshot ≠ [] := by
  have some (value : Nat) : Snapshot.varint value ≠ [] := by
    rw [Snapshot.varint]
    split <;> exact List.cons_ne_nil _ _
  intro nothing
  exact some _ (List.append_eq_nil_iff.mp (List.append_eq_nil_iff.mp nothing).1).1

theorem Fits.ofSnapshot_of_cut (fits : g.Fits) {front back : Bytes}
    (whole : front ++ back = g.snapshot) (cut : back ≠ []) :
    ofSnapshot front = .error (.snapshot .endOfInput) := by
  have reads := (Reader.readsIf_graph g).reads fits
  rw [← whole] at reads
  rw [ofSnapshot, Reader.leftToRight_graph.run_of_cut reads cut]

/-- A snapshot that was cut short anywhere, before its first byte too, is refused because the bytes run
out. It is never read as another graph, and no other fault is found in it. -/
theorem cut_snapshot_refused (fits : g.Fits) :
    g.snapshot ≠ [] ∧
      (∀ bytes, bytes <+: g.snapshot → bytes ≠ g.snapshot →
        ofSnapshot bytes = .error (.snapshot .endOfInput) ∧
          ∀ (t : FileTree) (p : Path), t.read p = .ok bytes →
            loadSnapshot t p = .error (.snapshot .endOfInput)) ∧
      (Failure.snapshot .endOfInput).message =
        "snapshot error: Hit the end of buffer, expected more data" := by
  refine ⟨g.snapshot_ne_nil, fun bytes start short => ?_, rfl⟩
  obtain ⟨back, whole⟩ := start
  have cut : back ≠ [] := by
    rintro rfl
    exact short ((List.append_nil bytes).symm.trans whole)
  have refused := fits.ofSnapshot_of_cut whole cut
  refine ⟨refused, fun t p held => ?_⟩
  rw [loadSnapshot, held]
  exact refused

theorem cut_snapshot_refused_twisted :
    twisted.Fits ∧ twisted.snapshot.length = 71 ∧
      ∀ size < 71, ofSnapshot (twisted.snapshot.take size) = .error (.snapshot .endOfInput) := by
  have fits : twisted.Fits := by decide +kernel
  have length : twisted.snapshot.length = 71 := by decide +kernel
  refine ⟨fits, length, fun size below => ?_⟩
  have shorter : (twisted.snapshot.take size).length = size :=
    List.length_take_of_le (length ▸ Nat.le_of_lt below)
  have short : twisted.snapshot.take size ≠ twisted.snapshot := by
    intro same
    rw [same, length] at shorter
    omega
  exact ((cut_snapshot_refused fits).2.1 _ (List.take_prefix size _) short).1

end Graph

end PseudoWord
