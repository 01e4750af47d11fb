import PseudoWord.Proofs.FileStems
import PseudoWord.Proofs.SnapshotCache

namespace PseudoWord

/-- When what a path leads to was modified, if it is there. -/
def Spot.stamp? : Spot → Option FileTree.Stamp
  | .directory _ => some .newest
  | .file _ _ modified false => some (.time modified)
  | _ => none

namespace FileTree

variable {t after : FileTree} {p q s : Path} {place start : Location} {parts : List PathPart}
  {spot : Spot}

/-- The place of a file is named by the last part of its path. -/
theorem Leads.getLast?_of_writable (leads : t.Leads start parts spot) (writable : Writable place spot) :
    ∃ name, Names name ∧ parts.getLast? = some name ∧ place.getLast? = some name := by
  have later {part : PathPart} {rest : List PathPart}
      (found : ∃ name, Names name ∧ rest.getLast? = some name ∧ place.getLast? = some name) :
      ∃ name, Names name ∧ (part :: rest).getLast? = some name ∧ place.getLast? = some name := by
    obtain ⟨name, names, last, atPlace⟩ := found
    exact ⟨name, names, by rw [List.getLast?_cons, last, Option.getD_some], atPlace⟩
  induction leads with
  | here => exact writable.elim
  | idle _ _ ih => exact later (ih writable)
  | up _ _ _ ih => exact later (ih writable)
  | long => exact writable.elim
  | down _ _ _ ih => exact later (ih writable)
  | @file start part rest bytes modified names _ _ =>
    obtain ⟨rfl, rfl⟩ := writable.last_part (.inl ⟨_, _, rfl⟩)
    exact ⟨part, names, rfl, List.getLast?_concat⟩
  | @vacant start part rest names _ _ =>
    obtain ⟨rfl, rfl⟩ := writable.last_part (.inr rfl)
    exact ⟨part, names, rfl, List.getLast?_concat⟩

theorem getLast?_of_place? (found : t.place? p = some place) {before : List PathPart} {name : PathPart}
    (named : p.splitName? = some (before, name)) : place.getLast? = some name := by
  obtain ⟨spot, located, writable⟩ := place?_eq_some_iff.mp found
  obtain ⟨last, ⟨said, other, _⟩, atEnd, atPlace⟩ :=
    (leads_of_follow (locate_eq_ok located).1).getLast?_of_writable writable
  obtain ⟨above, whole⟩ := List.getLast?_eq_some_iff.mp atEnd
  have split : p.splitName? = some (above, last) :=
    (congrArg (fun parts => Path.splitName? ⟨parts⟩) whole).trans (Path.splitName?_append said other)
  cases named.symm.trans split
  exact atPlace

theorem stamp?_eq_some_iff {stamp : Stamp} :
    t.stamp? p = some stamp ↔ ∃ spot, t.locate p = .ok spot ∧ spot.stamp? = some stamp := by
  rw [stamp?]
  cases t.locate p with
  | error cause =>
    refine iff_of_false (fun impossible => by cases impossible) ?_
    rintro ⟨_, impossible, _⟩
    cases impossible
  | ok spot =>
    simp only [Except.ok.injEq, exists_eq_left']
    cases spot with
    | directory place => rfl
    | file place bytes modified asDirectory => cases asDirectory <;> rfl
    | vacant place asDirectory => rfl
    | unnameable asDirectory => rfl

/-- Under this path the same is there in both trees, or in neither of them anything. -/
def SameAt (t after : FileTree) (p : Path) : Prop :=
  ∀ spot stamp, spot.stamp? = some stamp → (after.locate p = .ok spot ↔ t.locate p = .ok spot)

/-- To write a file changes nothing under a path that leads elsewhere. -/
theorem sameAt_put (found : t.place? s = some place) (apart : t.place? p ≠ some place) (bytes : Bytes)
    (time : Nat) : t.SameAt (t.put place (.file bytes time)) p := by
  have directories := sameDirectories_put found bytes time
  intro spot stamp there
  match spot with
  | .directory _ => exact ⟨directories.symm.locate_directory, directories.locate_directory⟩
  | .file other held modified false =>
    constructor
    · intro located
      rcases locate_file_put found located with ⟨same, _, _⟩ | ⟨_, before⟩
      · have atOther := (locate_eq_file_iff.mp located).1
        rw [directories.place?_eq, same] at atOther
        exact absurd atOther apart
      · exact before
    · intro located
      have elsewhere : other ≠ place := fun same => apart (same ▸ (locate_eq_file_iff.mp located).1)
      exact locate_put_of_ne found located elsewhere bytes time
  | .file _ _ _ true => cases there
  | .vacant .. => cases there
  | .unnameable _ => cases there

theorem SameAt.stamp?_eq (same : t.SameAt after p) : after.stamp? p = t.stamp? p := by
  refine Option.ext fun stamp => ?_
  rw [stamp?_eq_some_iff, stamp?_eq_some_iff]
  exact exists_congr fun spot => and_congr_left fun there => same spot stamp there

theorem SameAt.locate_eq (same : t.SameAt after p) {stamp : Stamp} (there : t.stamp? p = some stamp) :
    after.locate p = t.locate p := by
  obtain ⟨spot, located, there⟩ := stamp?_eq_some_iff.mp there
  rw [located]
  exact (same spot stamp there).mpr located

/-- A table that is not there has no lines. -/
theorem readLines_of_stamp?_none (missing : t.stamp? p = none) : t.readLines p = [] := by
  have unread (bytes : Bytes) : t.read p ≠ .ok bytes := by
    intro read
    obtain ⟨place, modified, located⟩ := read_eq_ok_iff.mp read
    exact absurd (missing.symm.trans (stamp?_of_locate located)) nofun
  rw [readLines, readText]
  cases read : t.read p with
  | ok bytes => exact absurd read (unread bytes)
  | error cause => rfl

end FileTree

namespace Graph

variable {t after : FileTree} {p q : Path}

theorem load_eq (same : t.SameAt after p) : load after p = load t p := by
  cases there : t.stamp? p with
  | none =>
    rw [load, load, FileTree.readLines_of_stamp?_none there,
      FileTree.readLines_of_stamp?_none (same.stamp?_eq.trans there)]
  | some stamp => exact load_congr (same.locate_eq there)

theorem loadSnapshot_congr {s : Path} (same : after.locate s = t.locate s) :
    loadSnapshot after s = loadSnapshot t s := by
  rw [loadSnapshot, loadSnapshot, FileTree.read, FileTree.read, same]

theorem graph_refresh (t : FileTree) (p s : Path) (time : Nat) :
    (refresh t p s time).graph = .ok (load t p) := by
  rw [refresh]
  split <;> rfl

/-- What opening a table gives depends on nothing but the table and its snapshot. -/
theorem graph_openTable_eq (table : t.SameAt after p)
    (snapshot : ∀ s ∈ p.snapshot?, t.SameAt after s) (time : Nat) :
    (openTable after p time).graph = (openTable t p time).graph := by
  rw [openTable, openTable]
  cases derived : p.snapshot? with
  | none => rfl
  | some s =>
    have same := snapshot s derived
    have fresh : after.isFresh s p = t.isFresh s p := by
      rw [FileTree.isFresh, FileTree.isFresh, table.stamp?_eq, same.stamp?_eq]
    dsimp only
    rw [fresh]
    split
    · rename_i fresh
      cases there : t.stamp? s with
      | none =>
        rw [FileTree.isFresh, there] at fresh
        cases fresh
      | some stamp => rw [loadSnapshot_congr (same.locate_eq there)]
    · rw [graph_refresh, graph_refresh, load_eq table]

/-- After a table was opened whose snapshot is neither another table nor the snapshot of this one, that
other table gives what it gave. -/
theorem graph_openTable_after
    (apart : ∀ s ∈ p.snapshot?, ∀ place ∈ t.place? s,
      t.place? q ≠ some place ∧ ∀ s' ∈ q.snapshot?, t.place? s' ≠ some place) (time later : Nat) :
    (openTable (openTable t p time).files q later).graph = (openTable t q later).graph := by
  rcases files_openTable t p time with same | ⟨s, derived, wrote⟩
  · rw [same]
  · obtain ⟨place, atPlace, files⟩ := FileTree.write_eq_ok_iff.mp wrote
    obtain ⟨table, snapshot⟩ := apart s derived place atPlace
    rw [files]
    exact graph_openTable_eq (FileTree.sameAt_put atPlace table _ _)
      (fun s' other => FileTree.sameAt_put atPlace (snapshot s' other) _ _) later

/-- Tables with plain stems that differ keep out of each other's way. -/
theorem apart_of_plain {before above : List PathPart} {name other : PathPart}
    (named : p.splitName? = some (before, name)) (otherNamed : q.splitName? = some (above, other))
    (plain : Path.IsPlain (Path.stemOf name)) (otherPlain : Path.IsPlain (Path.stemOf other))
    (different : Path.stemOf other ≠ Path.stemOf name) :
    ∀ s ∈ p.snapshot?, ∀ place ∈ t.place? s,
      t.place? q ≠ some place ∧ ∀ s' ∈ q.snapshot?, t.place? s' ≠ some place := by
  intro s derived place found
  obtain ⟨around, file, split, stem⟩ := Path.splitName?_snapshot named plain derived
  have atPlace := FileTree.getLast?_of_place? found split
  constructor
  · intro same
    have last := FileTree.getLast?_of_place? same otherNamed
    cases last.symm.trans atPlace
    exact different stem
  · intro s' otherDerived same
    obtain ⟨_, otherFile, otherSplit, otherStem⟩ :=
      Path.splitName?_snapshot otherNamed otherPlain otherDerived
    cases (FileTree.getLast?_of_place? same otherSplit).symm.trans atPlace
    exact different (otherStem.symm.trans stem)

/-- Where two tables have the same snapshot, the one that is opened later gives the graph of the one that
was opened before, under its own name. -/
theorem graph_openTable_shared {s : Path} (derived : p.snapshot? = some s) (shared : q.snapshot? = some s)
    {bytes : Bytes} (there : t.read p = .ok bytes) (small : bytes.length < UInt64.size)
    (stale : t.isFresh s p = false) {place : Location} (atPlace : t.place? s = some place)
    (table : t.place? q ≠ some place) {modified time : Nat} (written : t.stamp? q = some (.time modified))
    (notOlder : modified ≤ time) (later : Nat) :
    (openTable (openTable t p time).files q later).graph = .ok ((load t p).setName q.languageName) := by
  have saved : (load t p).saveSnapshot t s time = .ok (t.put place (.file (load t p).snapshot time)) :=
    FileTree.store_eq_ok_iff.mpr (FileTree.write_eq_ok_iff.mpr ⟨place, atPlace, rfl⟩)
  have files : (openTable t p time).files = t.put place (.file (load t p).snapshot time) := by
    rw [openTable, derived]
    dsimp only
    rw [stale, if_neg Bool.false_ne_true, refresh, saved]
  have located := FileTree.locate_put_self atPlace (load t p).snapshot time
  have fresh : (t.put place (.file (load t p).snapshot time)).isFresh s q = true := by
    rw [FileTree.isFresh, FileTree.stamp?_of_locate located,
      (FileTree.sameAt_put atPlace table _ _).stamp?_eq, written]
    exact decide_eq_true notOlder
  have held : (t.put place (.file (load t p).snapshot time)).read s =
      .ok ((load t p).snapshot ++ []) := by
    rw [List.append_nil]
    exact FileTree.read_eq_ok_iff.mpr ⟨place, time, located⟩
  rw [files, openTable, shared]
  dsimp only
  rw [fresh, if_pos rfl, (fits_load there small).loadSnapshot held, restored_load]
  rfl

/-- The files after tables were opened one after the other, each at its time. -/
def openAll (t : FileTree) (openings : List (Path × Nat)) : FileTree :=
  openings.foldl (fun t opening => (openTable t opening.1 opening.2).files) t

theorem graph_openTable_openAll {openings : List (Path × Nat)}
    (apart : ∀ opening ∈ openings, ∀ t : FileTree, ∀ s ∈ opening.1.snapshot?, ∀ place ∈ t.place? s,
      t.place? p ≠ some place ∧ ∀ s' ∈ p.snapshot?, t.place? s' ≠ some place) (t : FileTree) (time : Nat) :
    (openTable (openAll t openings) p time).graph = (openTable t p time).graph := by
  induction openings generalizing t with
  | nil => rfl
  | cons opening rest ih =>
    have first := apart opening List.mem_cons_self t
    exact (ih (fun later member => apart later (List.mem_cons_of_mem _ member)) _).trans
      (graph_openTable_after first opening.2 time)

/-- The snapshot of a table is `<stem>.bin` beside it exactly when the stem is plain; a stem with an
extension of its own loses that, so that two tables in one directory have the same snapshot exactly when
no more than these extensions tells their stems apart. What opening a table with a plain stem gives does
not change when tables with other plain stems are opened before, wherever they are. -/
theorem plain_stems_apart {before : List PathPart} {name : PathPart}
    (named : p.splitName? = some (before, name)) :
    p.languageName = String.ofList (Path.stemOf name) ∧
      (p.snapshot? = some ⟨Path.parentParts before ++ [Path.stemOf name ++ ['.', 'b', 'i', 'n']]⟩ ↔
        Path.IsPlain (Path.stemOf name)) ∧
      (∀ (q : Path) (above : List PathPart) (other : PathPart), q.splitName? = some (above, other) →
        Path.parentParts above = Path.parentParts before →
        Path.stemOf name ∉ [Path.dot, Path.dotDot] → Path.stemOf other ∉ [Path.dot, Path.dotDot] →
          (q.snapshot? = p.snapshot? ↔
            Path.stemOf (Path.stemOf other) = Path.stemOf (Path.stemOf name))) ∧
      (Path.IsPlain (Path.stemOf name) → ∀ openings : List (Path × Nat),
        (∀ opening ∈ openings, ∃ above other, opening.1.splitName? = some (above, other) ∧
          Path.IsPlain (Path.stemOf other) ∧ Path.stemOf other ≠ Path.stemOf name) →
        ∀ t time, (openTable (openAll t openings) p time).graph = (openTable t p time).graph ∧
          ((∀ s ∈ p.snapshot?, t.stamp? s = none) →
            (openTable (openAll t openings) p time).graph = .ok (load t p))) := by
  refine ⟨Path.languageName_eq named, Path.snapshot?_eq_stem_iff named,
    fun q above other otherNamed beside names otherNames =>
      Path.snapshot?_eq_iff named otherNamed beside names otherNames,
    fun plain openings others t time => ?_⟩
  have apart (opening : Path × Nat) (member : opening ∈ openings) (t : FileTree) :=
    have ⟨_, _, otherNamed, otherPlain, different⟩ := others opening member
    apart_of_plain (t := t) otherNamed named otherPlain plain different.symm
  have same := graph_openTable_openAll apart t time
  refine ⟨same, fun nothing => same.trans ?_⟩
  have derived := (Path.snapshot?_eq_stem_iff named).mpr plain
  have stale (s : Path) (missing : t.stamp? s = none) : t.isFresh s p = false := by
    rw [FileTree.isFresh, missing]
  rw [openTable, derived]
  dsimp only
  rw [stale _ (nothing _ derived), if_neg Bool.false_ne_true, graph_refresh]

/-- A table with one word. -/
def wordTable (word : String) : Bytes := s!"S ; _ ; N0\nN0 ; {word} ; O\n".toUTF8.data.toList

/-- Two tables in an otherwise empty working directory. -/
def twoTables (first second : String) : FileTree :=
  ⟨[([first.toList], .file (wordTable "ka") 1), ([second.toList], .file (wordTable "ri") 1)]⟩

theorem plain_stems_apart_twoTables :
    (openTable (openTable (twoTables "kya.csv" "rik.csv") (.ofString "kya.csv") 3).files
        (.ofString "rik.csv") 5).graph =
      .ok (load (twoTables "kya.csv" "rik.csv") (.ofString "rik.csv")) := by
  have rik : (Path.ofString "rik.csv").splitName? = some ([], "rik.csv".toList) := by decide +kernel
  have kya : (Path.ofString "kya.csv").splitName? = some ([], "kya.csv".toList) := by decide +kernel
  have nothing : ∀ s ∈ (Path.ofString "rik.csv").snapshot?,
      (twoTables "kya.csv" "rik.csv").stamp? s = none := by decide +kernel
  have others : ∀ opening ∈ [(Path.ofString "kya.csv", 3)], ∃ above other,
      opening.1.splitName? = some (above, other) ∧ Path.IsPlain (Path.stemOf other) ∧
        Path.stemOf other ≠ Path.stemOf "rik.csv".toList := by
    intro opening member
    cases List.mem_singleton.mp member
    exact ⟨_, _, kya, by decide +kernel, by decide +kernel⟩
  exact ((plain_stems_apart rik).2.2.2 (by decide +kernel) [(.ofString "kya.csv", 3)] others _ 5).2 nothing

/-- The stems of two tables differ, but they have one snapshot: the second gives the graph of the
first. -/
theorem dotted_stems_share :
    (Path.ofString "a.x.csv").stem? ≠ (Path.ofString "a.y.csv").stem? ∧
      (Path.ofString "a.x.csv").snapshot? = (Path.ofString "a.y.csv").snapshot? ∧
      (openTable (openTable (twoTables "a.x.csv" "a.y.csv") (.ofString "a.x.csv") 3).files
          (.ofString "a.y.csv") 5).graph =
        .ok ((load (twoTables "a.x.csv" "a.y.csv") (.ofString "a.x.csv")).setName "a.y") ∧
      (load (twoTables "a.x.csv" "a.y.csv") (.ofString "a.x.csv")).setName "a.y" ≠
        load (twoTables "a.x.csv" "a.y.csv") (.ofString "a.y.csv") := by
  have first : (Path.ofString "a.x.csv").snapshot? = some (.ofString "a.bin") := by decide +kernel
  have second : (Path.ofString "a.y.csv").snapshot? = some (.ofString "a.bin") := by decide +kernel
  have read : (twoTables "a.x.csv" "a.y.csv").read (.ofString "a.x.csv") =
      .ok (wordTable "ka") := rfl
  have small : (wordTable "ka").length < UInt64.size := by decide +kernel
  have name : (Path.ofString "a.y.csv").languageName = "a.y" := by decide +kernel
  have atPlace : (twoTables "a.x.csv" "a.y.csv").place? (.ofString "a.bin") = some ["a.bin".toList] := by
    decide +kernel
  have written : (twoTables "a.x.csv" "a.y.csv").stamp? (.ofString "a.y.csv") = some (.time 1) := by
    decide +kernel
  have notOlder : 1 ≤ 3 := by decide
  have shared := graph_openTable_shared first second read small (by decide +kernel) atPlace
    (by decide +kernel) written notOlder 5
  exact ⟨by decide +kernel, first.trans second.symm, name ▸ shared, by decide +kernel⟩

end Graph

end PseudoWord
