import Mathlib.Algebra.Group.Nat.Defs
import PseudoWord.Proofs.KeyMapLookup
import PseudoWord.Proofs.WrittenFiles
import PseudoWord.Snapshot.Decode

namespace PseudoWord

/-- A text whose length is a number of 64 bits. -/
def FitsText (value : String) : Prop := value.utf8ByteSize < UInt64.size

instance (value : String) : Decidable (FitsText value) := Nat.decLt _ _

namespace Reader

variable {α β : Type}

/-- A reader takes exactly these bytes off the front, whatever follows them, and makes this value of
them. -/
def Reads (r : Reader α) (bytes : Bytes) (value : α) : Prop :=
  ∀ rest, r.run (bytes ++ rest) = .ok (value, rest)

/-- These bytes have no other reading than this value, and they are read if the condition holds. -/
def ReadsIf (fits : Prop) (r : Reader α) (bytes : Bytes) (value : α) : Prop :=
  ∀ rest, r.run (bytes ++ rest) = .ok (value, rest) ∨
    ¬fits ∧ ∃ cause, r.run (bytes ++ rest) = .error cause

section Readings

variable {fits : Prop} {r : Reader α} {bytes : Bytes} {a : α}

theorem Reads.always (reads : Reads r bytes a) : ReadsIf fits r bytes a := fun rest => .inl (reads rest)

theorem ReadsIf.reads (reads : ReadsIf fits r bytes a) (holds : fits) : Reads r bytes a :=
  fun rest => (reads rest).resolve_right fun failed => failed.1 holds

/-- A reader that succeeds has found the one reading. -/
theorem ReadsIf.only (reads : ReadsIf fits r bytes a) {rest left : Bytes} {other : α}
    (succeeded : r.run (bytes ++ rest) = .ok (other, left)) : other = a ∧ left = rest := by
  rcases reads rest with read | ⟨_, cause, broken⟩
  · rw [read] at succeeded
    cases succeeded
    exact ⟨rfl, rfl⟩
  · rw [broken] at succeeded
    cases succeeded

theorem readsIf_pure (a : α) : ReadsIf fits (pure a) [] a := fun _ => .inl rfl

theorem readsIf_throw (failed : ¬fits) (cause : SnapshotError) (bytes : Bytes) (a : α) :
    ReadsIf fits (throw cause) bytes a := fun _ => .inr ⟨failed, cause, rfl⟩

theorem ReadsIf.bind {f : α → Reader β} {more : Bytes} {b : β} (reads : ReadsIf fits r bytes a)
    (later : ReadsIf fits (f a) more b) : ReadsIf fits (r >>= f) (bytes ++ more) b := by
  intro rest
  rw [StateT.run_bind, List.append_assoc]
  rcases reads (more ++ rest) with read | ⟨failed, cause, broken⟩
  · rw [read]
    exact later rest
  · rw [broken]
    exact .inr ⟨failed, cause, rfl⟩

/-- The last bytes that are read decide what follows without more bytes. -/
theorem ReadsIf.bind_last {f : α → Reader β} {b : β} (reads : ReadsIf fits r bytes a)
    (later : ReadsIf fits (f a) [] b) : ReadsIf fits (r >>= f) bytes b := by
  have both := reads.bind later
  rwa [List.append_nil] at both

end Readings

theorem reads_byte (first : UInt8) : Reads byte [first] first := fun _ => rfl

theorem reads_flag (value : Bool) : Reads flag (Snapshot.flag value) value := by
  cases value with
  | false => exact fun _ => rfl
  | true => exact fun _ => rfl

theorem reads_take (bytes : Bytes) : Reads (take bytes.length) bytes bytes := by
  intro rest
  have enough : ¬(bytes ++ rest).length < bytes.length := by
    rw [List.length_append]
    omega
  change take bytes.length (bytes ++ rest) = _
  rw [take, if_neg enough, List.splitAt_eq, List.take_left, List.drop_left]

section Numbers

variable {fits : Prop} {left value higher : Nat} {bytes : Bytes}

theorem toNat_toUInt8 (small : value < 256) : value.toUInt8.toNat = value :=
  UInt8.toNat_ofNat_of_lt' small

/-- The last byte of a number has a clear high bit. Where it is the last one that is allowed it holds one
bit, and a number too large for it is refused, not cut. -/
theorem readsIf_groups_last (low : value < 128) (small : fits → left = 0 → value < 2) :
    ReadsIf fits (groups (left + 1)) [value.toUInt8] value := by
  have same : value.toUInt8.toNat = value := toNat_toUInt8 (by omega)
  have clear : value.toUInt8 < 128 := by
    rw [UInt8.lt_iff_toNat_lt, same]
    exact low
  refine (reads_byte _).always.bind_last ?_
  rw [if_pos clear]
  by_cases refused : left = 0 ∧ 1 < value.toUInt8
  · obtain ⟨last, large⟩ := refused
    rw [if_pos ⟨last, large⟩]
    rw [UInt8.lt_iff_toNat_lt, same] at large
    exact readsIf_throw (fun holds => Nat.not_lt.mpr large (small holds last)) _ _ _
  · rw [if_neg refused, same]
    exact readsIf_pure value

theorem readsIf_groups_next (value : Nat) (later : ReadsIf fits (groups left) bytes higher) :
    ReadsIf fits (groups (left + 1)) ((value % 128 + 128).toUInt8 :: bytes)
      (value % 128 + 128 * higher) := by
  have same : (value % 128 + 128).toUInt8.toNat = value % 128 + 128 := toNat_toUInt8 (by omega)
  have set : ¬(value % 128 + 128).toUInt8 < 128 := by
    rw [UInt8.lt_iff_toNat_lt, same]
    exact Nat.not_lt.mpr (Nat.le_add_left 128 _)
  change ReadsIf fits _ ([_] ++ bytes) _
  refine (reads_byte _).always.bind ?_
  rw [if_neg set, same, Nat.add_mod_right, Nat.mod_mod]
  exact later.bind_last (readsIf_pure _)

/-- So many groups hold seven bits each, and one bit in the last. -/
theorem readsIf_groups (small : fits → value < 2 * 128 ^ left) :
    ReadsIf fits (groups (left + 1)) (Snapshot.varint value) value := by
  induction left generalizing value with
  | zero =>
    have bit : fits → value < 2 := small
    rw [Snapshot.varint]
    split
    · rename_i low
      exact readsIf_groups_last low fun holds _ => bit holds
    · rename_i high
      have failed : ¬fits := fun holds => high (Nat.lt_trans (bit holds) (by decide))
      have later : ReadsIf fits (groups 0) (Snapshot.varint (value / 128)) (value / 128) :=
        readsIf_throw failed .longVarint _ _
      have whole := readsIf_groups_next value later
      rwa [Nat.mod_add_div] at whole
  | succ left ih =>
    rw [Snapshot.varint]
    split
    · rename_i low
      exact readsIf_groups_last low fun _ last => absurd last (Nat.succ_ne_zero left)
    · have higher : fits → value / 128 < 2 * 128 ^ left := by
        intro holds
        have whole := small holds
        rw [Nat.pow_succ] at whole
        omega
      have whole := readsIf_groups_next value (ih higher)
      rwa [Nat.mod_add_div] at whole

theorem readsIf_varint (small : fits → value < UInt64.size) :
    ReadsIf fits varint (Snapshot.varint value) value := by
  have whole : UInt64.size = 2 * 128 ^ 9 := rfl
  exact readsIf_groups (whole ▸ small)

theorem readsIf_word (word : UInt64) : ReadsIf fits Reader.word (Snapshot.word word) word := by
  refine (readsIf_varint fun _ => word.toNat_lt_size).bind_last ?_
  rw [show word.toNat.toUInt64 = word from UInt64.ofNat_toNat]
  exact readsIf_pure word

theorem readsIf_nodeId (id : NodeId) : ReadsIf fits nodeId (Snapshot.nodeId id) id :=
  (readsIf_word id.value).bind_last (readsIf_pure id)

theorem readsIf_text {value : String} (small : fits → FitsText value) :
    ReadsIf fits text (Snapshot.text value) value := by
  have length : value.toUTF8.data.toList.length = value.utf8ByteSize := by
    rw [Array.length_toList]
    rfl
  refine (readsIf_varint (length ▸ small)).bind ((reads_take _).always.bind_last ?_)
  rw [FileTree.fromUTF8?_bytes]
  exact readsIf_pure value

end Numbers

section Maps

variable {fits : Prop} {item : Reader α} {write : α → Bytes} {back : α → α}

/-- Entries that were written in ascending order are read back one after the other. -/
theorem readsIf_entries {entries : List (UInt64 × α)} {m whole : KeyMap α}
    (reads : ∀ entry ∈ entries, ReadsIf fits item (write entry.2) (back entry.2))
    (split : whole.entries = m.entries ++ entries.map (fun entry => (entry.1, back entry.2))) :
    ReadsIf fits (Reader.entries item entries.length m)
      (entries.flatMap fun entry => Snapshot.word entry.1 ++ write entry.2) whole := by
  induction entries generalizing m with
  | nil =>
    rw [List.map_nil, List.append_nil] at split
    rw [KeyMap.ext_entries split]
    exact readsIf_pure m
  | cons entry rest ih =>
    have sorted := whole.sorted
    rw [split, List.map_cons, List.pairwise_append] at sorted
    have above : ∀ old ∈ m.entries, old.1 < entry.1 := fun old inside =>
      sorted.2.2 old inside (entry.1, back entry.2) List.mem_cons_self
    have added : whole.entries = (m.insert entry.1 (back entry.2)).entries ++
        rest.map (fun entry => (entry.1, back entry.2)) := by
      rw [split, m.entries_insert_of_above _ above, List.append_assoc]
      rfl
    have later := ih (fun old inside => reads old (List.mem_cons_of_mem entry inside)) added
    rw [List.flatMap_cons, List.append_assoc]
    exact (readsIf_word entry.1).bind ((reads entry List.mem_cons_self).bind later)

theorem readsIf_map {m : KeyMap α} (few : fits → m.size < UInt64.size)
    (reads : ∀ value ∈ m.values, ReadsIf fits item (write value) (back value)) :
    ReadsIf fits (map item) (Snapshot.map write m) (m.map back) :=
  (readsIf_varint few).bind (readsIf_entries
    (fun _ inside => reads _ (List.mem_map_of_mem inside)) (List.nil_append _).symm)

theorem readsIf_weightedSet {s : WeightedSet α} (few : fits → s.size < UInt64.size)
    (reads : ∀ value ∈ s.values, ReadsIf fits item (write value) value) :
    ReadsIf fits (weightedSet item) (Snapshot.weightedSet write s) s := by
  have entries : ReadsIf fits (map item) (Snapshot.map write s.entries) (s.entries.map id) :=
    readsIf_map few reads
  rw [KeyMap.map_eq_self (f := id) fun _ _ => rfl] at entries
  exact entries.bind ((readsIf_word s.total).bind_last (readsIf_pure _))

end Maps

end Reader

/-- The lengths that the snapshot of a node writes down are numbers of 64 bits, as all lengths in memory
are. -/
structure Node.Fits (n : Node) : Prop where
  fragments : n.fragments.size < UInt64.size
  texts : ∀ fragment ∈ n.fragments.values, FitsText fragment
  links : n.links.size < UInt64.size

instance (n : Node) : Decidable n.Fits :=
  decidable_of_iff (n.fragments.size < UInt64.size ∧ (∀ fragment ∈ n.fragments.values, FitsText fragment) ∧
    n.links.size < UInt64.size)
    ⟨fun ⟨fragments, texts, links⟩ => ⟨fragments, texts, links⟩,
      fun ⟨fragments, texts, links⟩ => ⟨fragments, texts, links⟩⟩

/-- A node from which no walk has started yet. -/
def Node.unrun (n : Node) : Node := { n with runs := 0 }

theorem Reader.readsIf_node {fits : Prop} {n : Node} (small : fits → n.Fits) :
    ReadsIf fits node (Snapshot.node n) n.unrun := by
  have fragments := readsIf_weightedSet (fun holds => (small holds).fragments) fun fragment inside =>
    readsIf_text fun holds => (small holds).texts fragment inside
  have links := readsIf_weightedSet (fun holds => (small holds).links) fun target _ =>
    readsIf_nodeId target
  rw [Snapshot.node]
  simp only [List.append_assoc]
  exact (readsIf_nodeId n.id).bind (fragments.bind (links.bind ((reads_flag n.initializing).always.bind
    ((reads_flag n.terminating).always.bind_last (readsIf_pure _)))))

/-- So are the lengths that the snapshot of a graph writes down. -/
structure Graph.Fits (g : Graph) : Prop where
  name : FitsText g.name
  size : g.size < UInt64.size
  nodes : ∀ n ∈ g.nodeList, n.Fits

instance (g : Graph) : Decidable g.Fits :=
  decidable_of_iff (FitsText g.name ∧ g.size < UInt64.size ∧ ∀ n ∈ g.nodeList, n.Fits)
    ⟨fun ⟨name, size, nodes⟩ => ⟨name, size, nodes⟩, fun ⟨name, size, nodes⟩ => ⟨name, size, nodes⟩⟩

/-- What is read of a snapshot is what was written. -/
theorem Reader.readsIf_graph (g : Graph) :
    ReadsIf g.Fits graph g.snapshot ⟨g.name, g.nodes.map Node.unrun, none⟩ :=
  (readsIf_text Graph.Fits.name).bind
    ((readsIf_map Graph.Fits.size fun n inside => readsIf_node fun fits => fits.nodes n inside).bind_last
      (readsIf_pure _))

end PseudoWord
