import PseudoWord.Proofs.LoadedTable

namespace PseudoWord

namespace Graph

variable {t after : FileTree} {p : Path} {time : Nat}

theorem load_congr (same : after.locate p = t.locate p) : load after p = load t p := by
  rw [load, load, FileTree.readLines, FileTree.readLines, FileTree.readText, FileTree.readText,
    FileTree.read, FileTree.read, same]

/-- All that opening a table does to the files: nothing, or its graph is written as its snapshot. -/
theorem files_openTable (t : FileTree) (p : Path) (time : Nat) :
    (openTable t p time).files = t ∨ ∃ snapshot, p.snapshot? = some snapshot ∧
      t.write snapshot (load t p).snapshot time = .ok (openTable t p time).files := by
  rw [openTable]
  split
  · exact .inl rfl
  · rename_i snapshot derived
    split
    · exact .inl rfl
    · rw [refresh]
      split
      · rename_i files saved
        exact .inr ⟨snapshot, derived, FileTree.store_eq_ok_iff.mp saved⟩
      · exact .inl rfl

end Graph

/-- Tables whose snapshots are files of their own: nothing stands yet where they go, no two tables have
the same one, and none of them is a table. The size of a file is a number of 64 bits. -/
structure FileTree.KeepsApart (t : FileTree) (tables : Path → Prop) : Prop where
  nothing : ∀ p, tables p → ∃ s ∈ p.snapshot?, t.stamp? s = none
  distinct : ∀ p, tables p → ∀ q, tables q → ∀ s ∈ p.snapshot?, ∀ s' ∈ q.snapshot?,
    ∀ place ∈ t.place? s, t.place? s' = some place → p = q
  others : ∀ p, tables p → ∀ q, tables q → ∀ s ∈ p.snapshot?,
    ∀ place ∈ t.place? s, t.place? q ≠ some place
  small : ∀ p, tables p → ∀ bytes, t.read p = .ok bytes → bytes.length < UInt64.size

/-- What happens to the files: a table is written, later than any snapshot that is there, or a table is
opened. A snapshot may be written at any time: one that is older than its table is not used. -/
inductive TableStep (tables : Path → Prop) : FileTree → FileTree → Prop
  | written {t after : FileTree} {p : Path} {bytes : Bytes} {time : Nat} :
      tables p → bytes.length < UInt64.size →
      (∀ q, tables q → ∀ s ∈ q.snapshot?, ∀ taken, t.stamp? s = some (.time taken) → taken < time) →
      t.write p bytes time = .ok after → TableStep tables t after
  | opened {t : FileTree} {p : Path} (time : Nat) :
      tables p → TableStep tables t (Graph.openTable t p time).files

/-- The files after any number of such steps. -/
inductive TableRun (tables : Path → Prop) (first : FileTree) : FileTree → Prop
  | start : TableRun tables first first
  | next {t after : FileTree} : TableRun tables first t → TableStep tables t after →
      TableRun tables first after

/-- The snapshots agree with the tables: one that is no older than its table holds the graph of the
table. The directories are those of the first files. -/
structure FileTree.Coherent (tables : Path → Prop) (first t : FileTree) : Prop where
  directories : first.SameDirectories t
  small : ∀ p, tables p → ∀ bytes, t.read p = .ok bytes → bytes.length < UInt64.size
  held : ∀ p, tables p → ∀ s ∈ p.snapshot?, ∀ place bytes modified spot kept taken,
    t.locate p = .ok (.file place bytes modified false) →
    t.locate s = .ok (.file spot kept taken false) → modified ≤ taken → kept = (Graph.load t p).snapshot

namespace FileTree

variable {tables : Path → Prop} {first t after : FileTree} {p s : Path}

theorem place?_of_locate {place : Location} {bytes : Bytes} {modified : Nat}
    (located : t.locate p = .ok (.file place bytes modified false)) : t.place? p = some place :=
  (locate_eq_file_iff.mp located).1

theorem stamp?_of_locate {place : Location} {bytes : Bytes} {modified : Nat}
    (located : t.locate p = .ok (.file place bytes modified false)) : t.stamp? p = some (.time modified) := by
  rw [stamp?, located]

/-- When there is no snapshot, none is out of step. -/
theorem KeepsApart.coherent (apart : first.KeepsApart tables) : Coherent tables first first := by
  refine ⟨.refl first, apart.small, fun p table s derived _ _ _ _ _ _ _ there => ?_⟩
  obtain ⟨other, same, nothing⟩ := apart.nothing p table
  rw [derived] at same
  cases same
  rw [stamp?_of_locate there] at nothing
  cases nothing

/-- A table that was just written is newer than its snapshot. -/
theorem Coherent.written (coherent : Coherent tables first t) (apart : first.KeepsApart tables)
    {bytes : Bytes} {time : Nat} (table : tables p) (small : bytes.length < UInt64.size)
    (later : ∀ q, tables q → ∀ s ∈ q.snapshot?, ∀ taken, t.stamp? s = some (.time taken) → taken < time)
    (wrote : t.write p bytes time = .ok after) : Coherent tables first after := by
  obtain ⟨place, atPlace, rfl⟩ := write_eq_ok_iff.mp wrote
  have directories := coherent.directories.trans (sameDirectories_put atPlace bytes time)
  have atFirst : first.place? p = some place := coherent.directories.place?_eq p ▸ atPlace
  refine ⟨directories, fun q other held read => ?_, ?_⟩
  · obtain ⟨spot, modified, located⟩ := read_eq_ok_iff.mp read
    rcases locate_file_put atPlace located with ⟨_, rfl, _⟩ | ⟨_, before⟩
    · exact small
    · exact coherent.small q other held (read_eq_ok_iff.mpr ⟨spot, modified, before⟩)
  · intro q other s derived spot held modified cache kept taken atTable atCache fresh
    have cacheFirst : first.place? s = some cache :=
      directories.place?_eq s ▸ place?_of_locate atCache
    rcases locate_file_put atPlace atCache with ⟨same, _, _⟩ | ⟨_, cacheBefore⟩
    · exact absurd (same ▸ atFirst) (apart.others q other p table s derived cache cacheFirst)
    · rcases locate_file_put atPlace atTable with ⟨_, _, rfl⟩ | ⟨_, tableBefore⟩
      · have older := later q other s derived taken (stamp?_of_locate cacheBefore)
        exact absurd fresh (Nat.not_le.mpr older)
      · rw [Graph.load_congr (atTable.trans tableBefore.symm)]
        exact coherent.held q other s derived _ _ _ _ _ _ tableBefore cacheBefore fresh

/-- A snapshot that was just written holds the graph of its table. -/
theorem Coherent.saved (coherent : Coherent tables first t) (apart : first.KeepsApart tables)
    {time : Nat} (table : tables p) (derived : p.snapshot? = some s)
    (wrote : t.write s (Graph.load t p).snapshot time = .ok after) : Coherent tables first after := by
  obtain ⟨place, atPlace, rfl⟩ := write_eq_ok_iff.mp wrote
  have directories := coherent.directories.trans
    (sameDirectories_put atPlace (Graph.load t p).snapshot time)
  have atFirst : first.place? s = some place := coherent.directories.place?_eq s ▸ atPlace
  have kept {q : Path} {spot : Location} {bytes : Bytes} {modified : Nat} (other : tables q)
      (located : (t.put place (.file (Graph.load t p).snapshot time)).locate q =
        .ok (.file spot bytes modified false)) : t.locate q = .ok (.file spot bytes modified false) := by
    have found : first.place? q = some spot := directories.place?_eq q ▸ place?_of_locate located
    rcases locate_file_put atPlace located with ⟨same, _, _⟩ | ⟨_, before⟩
    · exact absurd (same ▸ found) (apart.others p table q other s derived place atFirst)
    · exact before
  refine ⟨directories, fun q other bytes read => ?_, ?_⟩
  · obtain ⟨spot, modified, located⟩ := read_eq_ok_iff.mp read
    exact coherent.small q other bytes (read_eq_ok_iff.mpr ⟨spot, modified, kept other located⟩)
  · intro q other s' derived' spot bytes modified cache held taken atTable atCache fresh
    have before := kept other atTable
    rw [Graph.load_congr (atTable.trans before.symm)]
    have cacheFirst : first.place? s' = some cache :=
      directories.place?_eq s' ▸ place?_of_locate atCache
    rcases locate_file_put atPlace atCache with ⟨same, rfl, _⟩ | ⟨_, cacheBefore⟩
    · rw [apart.distinct p table q other s derived s' derived' place atFirst (same ▸ cacheFirst)]
    · exact coherent.held q other s' derived' _ _ _ _ _ _ before cacheBefore fresh

theorem Coherent.step (coherent : Coherent tables first t) (apart : first.KeepsApart tables)
    (step : TableStep tables t after) : Coherent tables first after := by
  cases step with
  | written table small later wrote => exact coherent.written apart table small later wrote
  | @opened p time table =>
    rcases Graph.files_openTable t p time with same | ⟨s, derived, wrote⟩
    · exact same.symm ▸ coherent
    · exact coherent.saved apart table derived wrote

theorem KeepsApart.coherent_of_run (apart : first.KeepsApart tables) (run : TableRun tables first t) :
    Coherent tables first t := by
  induction run with
  | start => exact apart.coherent
  | next _ step ih => exact ih.step apart step

/-- A snapshot that is used instead of a table is a file that is no older. -/
theorem locate_of_isFresh (fresh : t.isFresh s p = true) (free : ∀ place, t.locate s ≠ .ok (.directory place))
    {place : Location} {bytes : Bytes} {modified : Nat}
    (located : t.locate p = .ok (.file place bytes modified false)) :
    ∃ spot kept taken, t.locate s = .ok (.file spot kept taken false) ∧ modified ≤ taken := by
  rw [isFresh, stamp?_of_locate located, stamp?] at fresh
  cases cached : t.locate s with
  | error cause =>
    rw [cached] at fresh
    cases fresh
  | ok spot =>
    rw [cached] at fresh
    match spot with
    | .directory other => exact absurd cached (free other)
    | .file other kept taken false => exact ⟨other, kept, taken, rfl, of_decide_eq_true fresh⟩
    | .file _ _ _ true => cases fresh
    | .vacant .. => cases fresh
    | .unnameable _ => cases fresh

theorem isFresh_of_locate {place spot : Location} {bytes held : Bytes} {modified taken : Nat}
    (located : t.locate p = .ok (.file place bytes modified false))
    (cached : t.locate s = .ok (.file spot held taken false)) (notOlder : modified ≤ taken) :
    t.isFresh s p = true := by
  rw [isFresh, stamp?_of_locate located, stamp?_of_locate cached]
  exact decide_eq_true notOlder

/-- Nothing becomes a directory, so no snapshot is one. -/
theorem Coherent.not_directory (coherent : Coherent tables first t) (nothing : first.stamp? s = none)
    (place : Location) : t.locate s ≠ .ok (.directory place) := by
  intro located
  rw [stamp?, coherent.directories.symm.locate_directory located] at nothing
  cases nothing

end FileTree

theorem Path.stem?_of_snapshot? {p s : Path} (derived : p.snapshot? = some s) :
    ∃ stem, p.stem? = some stem := by
  obtain ⟨split, named, _⟩ := Option.map_eq_some_iff.mp derived
  exact ⟨stemOf split.2, by rw [stem?, named, Option.map_some]⟩

namespace Graph

variable {tables : Path → Prop} {first t : FileTree} {p : Path}

/-- What opening a table gives is its graph, be it read from the snapshot or from the table. -/
theorem graph_openTable (coherent : FileTree.Coherent tables first t) (apart : first.KeepsApart tables)
    (table : tables p) {bytes : Bytes} (there : t.read p = .ok bytes) (time : Nat) :
    (openTable t p time).graph = .ok (load t p) := by
  obtain ⟨s, derived, nothing⟩ := apart.nothing p table
  have derived : p.snapshot? = some s := derived
  rw [openTable, derived]
  dsimp only
  split
  · rename_i fresh
    obtain ⟨place, modified, located⟩ := FileTree.read_eq_ok_iff.mp there
    obtain ⟨spot, kept, taken, cached, notOlder⟩ :=
      FileTree.locate_of_isFresh fresh (coherent.not_directory nothing) located
    have same := coherent.held p table s derived _ _ _ _ _ _ located cached notOlder
    have held : t.read s = .ok ((load t p).snapshot ++ []) := by
      rw [List.append_nil, ← same]
      exact FileTree.read_eq_ok_iff.mpr ⟨spot, taken, cached⟩
    have fits := fits_load there (coherent.small p table bytes there)
    rw [fits.loadSnapshot held, restored_load]
    rfl
  · rw [refresh]
    split
    · rfl
    · rfl

/-- A snapshot that could be written, and not before the table, is used the next time. -/
theorem isFresh_openTable (coherent : FileTree.Coherent tables first t) (apart : first.KeepsApart tables)
    (table : tables p) {place : Location} {bytes : Bytes} {modified time : Nat}
    (located : t.locate p = .ok (.file place bytes modified false)) {s : Path} (derived : p.snapshot? = some s)
    (writable : t.CanWrite s) (notOlder : modified ≤ time) :
    (openTable t p time).files.isFresh s p = true := by
  obtain ⟨spot, old, leads, ends⟩ := writable
  have atSpot : t.place? s = some spot := FileTree.place?_eq_some_iff.mpr ⟨old, leads, ends⟩
  have apartFromTable : place ≠ spot := by
    intro same
    have tableFirst : first.place? p = some place :=
      coherent.directories.place?_eq p ▸ FileTree.place?_of_locate located
    have snapshotFirst : first.place? s = some spot := coherent.directories.place?_eq s ▸ atSpot
    exact apart.others p table p table s derived spot snapshotFirst (same ▸ tableFirst)
  rw [openTable, derived]
  dsimp only
  split
  · rename_i fresh
    exact fresh
  · have saved : (load t p).saveSnapshot t s time =
        .ok (t.put spot (.file (load t p).snapshot time)) :=
      FileTree.store_eq_ok_iff.mpr (FileTree.write_of_writable leads ends _ time)
    rw [refresh, saved]
    exact FileTree.isFresh_of_locate (FileTree.locate_put_of_ne atSpot located apartFromTable _ time)
      (FileTree.locate_put_self atSpot _ time) notOlder

/-- Whatever was done to tables that keep apart, opening one gives the graph of its lines as they are,
named after its file, be it read from the snapshot or from the table. A snapshot that is written then,
and not before the table, is used the next time. -/
theorem openTable_current (apart : first.KeepsApart tables) (run : TableRun tables first t)
    (table : tables p) {bytes : Bytes} (there : t.read p = .ok bytes) (time : Nat) :
    (∃ stem, p.stem? = some stem ∧
      (openTable t p time).graph = .ok ((ofTable (t.readLines p)).setName (String.ofList stem))) ∧
      ∀ s ∈ p.snapshot?, t.CanWrite s →
        (∀ modified, t.stamp? p = some (.time modified) → modified ≤ time) →
          (openTable t p time).files.isFresh s p = true := by
  have coherent := apart.coherent_of_run run
  constructor
  · obtain ⟨s, derived, _⟩ := apart.nothing p table
    obtain ⟨stem, named⟩ := Path.stem?_of_snapshot? derived
    have loaded : load t p = (ofTable (t.readLines p)).setName (String.ofList stem) := by
      rw [load, Path.languageName, named, Option.getD_some]
    exact ⟨stem, named, loaded ▸ graph_openTable coherent apart table there time⟩
  · intro s derived writable notOlder
    obtain ⟨place, modified, located⟩ := FileTree.read_eq_ok_iff.mp there
    exact isFresh_openTable coherent apart table located derived writable
      (notOlder modified (FileTree.stamp?_of_locate located))

/-- A directory for tables, with nothing in it. -/
def langFiles : FileTree := ⟨[(["lang".toList], .directory)]⟩

def kyaTable : Path := .ofString "lang/kya.csv"

def langTables : List Path := [kyaTable, .ofString "rik.csv"]

theorem keepsApart_langFiles : langFiles.KeepsApart (· ∈ langTables) := by
  have nothing : ∀ p ∈ langTables, ∃ s ∈ p.snapshot?, langFiles.stamp? s = none := by decide +kernel
  have distinct : ∀ p ∈ langTables, ∀ q ∈ langTables, ∀ s ∈ p.snapshot?, ∀ s' ∈ q.snapshot?,
      ∀ place ∈ langFiles.place? s, langFiles.place? s' = some place → p = q := by decide +kernel
  have others : ∀ p ∈ langTables, ∀ q ∈ langTables, ∀ s ∈ p.snapshot?,
      ∀ place ∈ langFiles.place? s, langFiles.place? q ≠ some place := by decide +kernel
  have missing : ∀ p ∈ langTables, langFiles.stamp? p = none := by decide +kernel
  refine ⟨nothing, distinct, others, fun p table bytes read => ?_⟩
  obtain ⟨place, modified, located⟩ := FileTree.read_eq_ok_iff.mp read
  have there := FileTree.stamp?_of_locate located
  rw [missing p table] at there
  cases there

/-- The files with a text in the place of the first table. -/
def edited (t : FileTree) (text : String) (time : Nat) : FileTree :=
  t.put ["lang".toList, "kya.csv".toList] (.file text.toUTF8.data.toList time)

def firstText : String := "S ; _ ; N0\nN0 ; kya\n"

def laterText : String := "S ; _ ; N0\nN0 ; kan | kya(2)\n"

def openedOnce : FileTree := (openTable (edited langFiles firstText 3) kyaTable 5).files

/-- The files after a table was written, opened, changed and opened again. -/
def openedTwice : FileTree := (openTable (edited openedOnce laterText 7) kyaTable 9).files

theorem tableRun_openedTwice : TableRun (· ∈ langTables) langFiles openedTwice := by
  have listed : kyaTable ∈ langTables := List.mem_cons_self
  have unsaved : ∀ p ∈ langTables, ∀ s ∈ p.snapshot?, langFiles.stamp? s = none := by decide +kernel
  have saved : ∀ p ∈ langTables, ∀ s ∈ p.snapshot?, ∀ stamp ∈ openedOnce.stamp? s, stamp = .time 5 := by
    decide +kernel
  have firstSmall : firstText.toUTF8.data.toList.length < UInt64.size := by decide +kernel
  have laterSmall : laterText.toUTF8.data.toList.length < UInt64.size := by decide +kernel
  have written : TableRun (· ∈ langTables) langFiles (edited langFiles firstText 3) := by
    refine .next .start (.written listed firstSmall (fun p table s derived taken there => ?_) rfl)
    rw [unsaved p table s derived] at there
    cases there
  have opened : TableRun (· ∈ langTables) langFiles openedOnce := .next written (.opened 5 listed)
  have changed : TableRun (· ∈ langTables) langFiles (edited openedOnce laterText 7) := by
    refine .next opened (.written listed laterSmall (fun p table s derived taken there => ?_) rfl)
    cases saved p table s derived _ there
    decide
  exact .next changed (.opened 9 listed)

theorem openTable_current_openedTwice :
    openedTwice.isFresh (.ofString "lang/kya.bin") kyaTable = true ∧
      (openTable openedTwice kyaTable 11).graph =
        .ok ((ofTable ["S ; _ ; N0", "N0 ; kan | kya(2)"]).setName "kya") := by
  have read : openedTwice.read kyaTable = .ok laterText.toUTF8.data.toList := rfl
  have lines : openedTwice.readLines kyaTable = ["S ; _ ; N0", "N0 ; kan | kya(2)"] := by
    decide +kernel
  have kya : kyaTable.stem? = some "kya".toList := by decide +kernel
  obtain ⟨⟨stem, named, current⟩, _⟩ :=
    openTable_current keepsApart_langFiles tableRun_openedTwice List.mem_cons_self read 11
  rw [kya] at named
  cases named
  rw [lines] at current
  exact ⟨by decide +kernel, current⟩

end Graph

end PseudoWord
