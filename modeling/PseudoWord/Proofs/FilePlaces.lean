import PseudoWord.Files.Tree

namespace PseudoWord

namespace FileTree

/-- A part that names something in a directory. -/
def Names (part : PathPart) : Prop :=
  Path.isIdle part = false ∧ part ≠ Path.dotDot ∧ Path.isLongName part = false

/-- How parts lead from a directory to a spot. -/
inductive Leads (t : FileTree) : Location → List PathPart → Spot → Prop
  | here (start : Location) : Leads t start [] (.directory start)
  | idle {start : Location} {part : PathPart} {rest : List PathPart} {spot : Spot} :
      Path.isIdle part = true → Leads t start rest spot → Leads t start (part :: rest) spot
  | up {start : Location} {part : PathPart} {rest : List PathPart} {spot : Spot} :
      Path.isIdle part = false → part = Path.dotDot → Leads t start.dropLast rest spot →
      Leads t start (part :: rest) spot
  | long {start : Location} {part : PathPart} {rest : List PathPart} :
      Path.isIdle part = false → part ≠ Path.dotDot → Path.isLongName part = true →
      rest.all (·.isEmpty) = true → Leads t start (part :: rest) (.unnameable !rest.isEmpty)
  | down {start : Location} {part : PathPart} {rest : List PathPart} {spot : Spot} :
      Names part → t.item? (start ++ [part]) = some .directory →
      Leads t (start ++ [part]) rest spot → Leads t start (part :: rest) spot
  | file {start : Location} {part : PathPart} {rest : List PathPart} {bytes : Bytes} {modified : Nat} :
      Names part → t.item? (start ++ [part]) = some (.file bytes modified) →
      rest.all (·.isEmpty) = true →
      Leads t start (part :: rest) (.file (start ++ [part]) bytes modified !rest.isEmpty)
  | vacant {start : Location} {part : PathPart} {rest : List PathPart} :
      Names part → t.item? (start ++ [part]) = none → rest.all (·.isEmpty) = true →
      Leads t start (part :: rest) (.vacant (start ++ [part]) !rest.isEmpty)

variable {t after : FileTree} {p q : Path} {place start : Location} {part : PathPart}
  {rest parts : List PathPart} {spot : Spot}

theorem leads_of_follow (led : t.follow start parts = .ok spot) : t.Leads start parts spot := by
  induction parts generalizing start with
  | nil =>
    cases led
    exact .here start
  | cons part rest ih =>
    rw [follow] at led
    by_cases idle : Path.isIdle part = true
    · rw [if_pos idle] at led
      exact .idle idle (ih led)
    · rw [if_neg idle] at led
      have said := Bool.eq_false_iff.mpr idle
      by_cases up : (part == Path.dotDot) = true
      · rw [if_pos up] at led
        exact .up said (beq_iff_eq.mp up) (ih led)
      · rw [if_neg up] at led
        have other : part ≠ Path.dotDot := fun same => up (beq_iff_eq.mpr same)
        by_cases long : Path.isLongName part = true
        · rw [if_pos long] at led
          split at led
          · rename_i last
            cases led
            exact .long said other long last
          · cases led
        · rw [if_neg long] at led
          have names : Names part := ⟨said, other, Bool.eq_false_iff.mpr long⟩
          dsimp only at led
          split at led
          · rename_i directory
            exact .down names directory (ih led)
          · rename_i bytes modified file
            split at led
            · rename_i last
              cases led
              exact .file names file last
            · cases led
          · rename_i free
            split at led
            · rename_i last
              cases led
              exact .vacant names free last
            · cases led

theorem follow_of_names (names : Names part) :
    t.follow start (part :: rest) =
      match t.item? (start ++ [part]) with
      | some .directory => t.follow (start ++ [part]) rest
      | some (.file bytes modified) =>
        if rest.all (·.isEmpty) then .ok (.file (start ++ [part]) bytes modified !rest.isEmpty)
        else .error .notADirectory
      | none =>
        if rest.all (·.isEmpty) then .ok (.vacant (start ++ [part]) !rest.isEmpty)
        else .error .notFound := by
  obtain ⟨said, other, short⟩ := names
  have down : ¬ (part == Path.dotDot) = true := fun same => other (beq_iff_eq.mp same)
  rw [follow, if_neg (Bool.eq_false_iff.mp said)]
  exact (if_neg down).trans (if_neg (Bool.eq_false_iff.mp short))

/-- A place to which a file can be written: a file, or a name that is free. -/
def Writable (place : Location) : Spot → Prop
  | .file other _ _ false => other = place
  | .vacant other false => other = place
  | _ => False

theorem Writable.last_part (writable : Writable place spot) {other : Location}
    (kind : (∃ bytes modified, spot = .file other bytes modified !rest.isEmpty) ∨
      spot = .vacant other !rest.isEmpty) : other = place ∧ rest = [] := by
  cases rest with
  | nil =>
    rcases kind with ⟨_, _, rfl⟩ | rfl
    · exact ⟨writable, rfl⟩
    · exact ⟨writable, rfl⟩
  | cons next later =>
    rcases kind with ⟨_, _, rfl⟩ | rfl
    · exact writable.elim
    · exact writable.elim

/-- Where a path leads to a file or a free name, no directory stands. -/
theorem Leads.not_directory (leads : t.Leads start parts spot) (writable : Writable place spot) :
    t.item? place ≠ some .directory := by
  induction leads with
  | here => exact writable.elim
  | idle _ _ ih => exact ih writable
  | up _ _ _ ih => exact ih writable
  | long => exact writable.elim
  | down _ _ _ ih => exact ih writable
  | file _ atPlace _ =>
    obtain ⟨rfl, _⟩ := writable.last_part (.inl ⟨_, _, rfl⟩)
    rw [atPlace]
    exact fun impossible => by cases impossible
  | vacant _ atPlace _ =>
    obtain ⟨rfl, _⟩ := writable.last_part (.inr rfl)
    rw [atPlace]
    exact fun impossible => by cases impossible

/-- A path is followed from the working directory, if it can be followed at all. -/
theorem locate_eq_ok (located : t.locate p = .ok spot) :
    t.follow [] p.parts = .ok spot ∧ ∀ other : FileTree, other.locate p = other.follow [] p.parts := by
  rw [locate] at located
  cases fault : pathFault? p with
  | some cause =>
    rw [fault] at located
    cases located
  | none =>
    simp only [fault] at located
    split at located
    · cases located
    · rename_i filled
      refine ⟨located, fun other => ?_⟩
      simp only [locate, fault, if_neg filled]

/-- A path under which a file can be written. -/
def CanWrite (t : FileTree) (p : Path) : Prop :=
  ∃ place spot, t.locate p = .ok spot ∧ Writable place spot

theorem write_of_writable (located : t.locate p = .ok spot) (writable : Writable place spot)
    (bytes : Bytes) (time : Nat) :
    t.write p bytes time = .ok (t.put place (.file bytes time)) := by
  rw [write, located]
  cases spot with
  | file other old modified asDirectory =>
    cases asDirectory with
    | false => exact writable ▸ rfl
    | true => exact writable.elim
  | vacant other asDirectory =>
    cases asDirectory with
    | false => exact writable ▸ rfl
    | true => exact writable.elim
  | directory other => exact writable.elim
  | unnameable asDirectory => exact writable.elim

theorem write_eq_ok {bytes : Bytes} {time : Nat} (written : t.write p bytes time = .ok after) :
    ∃ place spot, t.locate p = .ok spot ∧ Writable place spot ∧
      after = t.put place (.file bytes time) := by
  rw [write] at written
  cases located : t.locate p with
  | error cause =>
    rw [located] at written
    cases written
  | ok spot =>
    rw [located] at written
    cases spot with
    | directory place => cases written
    | file place old modified asDirectory =>
      cases asDirectory with
      | false =>
        cases written
        exact ⟨place, _, rfl, rfl, rfl⟩
      | true => cases written
    | vacant place asDirectory =>
      cases asDirectory with
      | false =>
        cases written
        exact ⟨place, _, rfl, rfl, rfl⟩
      | true => cases written
    | unnameable asDirectory => cases asDirectory <;> cases written

/-- The place at which a file is read or written under a path, be it there or not. -/
def place? (t : FileTree) (p : Path) : Option Location :=
  match t.locate p with
  | .ok (.file place _ _ false) => some place
  | .ok (.vacant place false) => some place
  | _ => none

theorem place?_eq_some_iff :
    t.place? p = some place ↔ ∃ spot, t.locate p = .ok spot ∧ Writable place spot := by
  rw [place?]
  constructor
  · intro found
    split at found
    · rename_i located
      exact ⟨_, located, Option.some.inj found⟩
    · rename_i located
      exact ⟨_, located, Option.some.inj found⟩
    · cases found
  · rintro ⟨spot, located, writable⟩
    rw [located]
    match spot, writable with
    | .file _ _ _ false, same => exact congrArg some same
    | .vacant _ false, same => exact congrArg some same

/-- Both trees have the same directories; their files may differ. -/
def SameDirectories (t after : FileTree) : Prop :=
  ∀ place, t.item? place = some .directory ↔ after.item? place = some .directory

theorem SameDirectories.refl (t : FileTree) : t.SameDirectories t := fun _ => Iff.rfl

theorem SameDirectories.symm (same : t.SameDirectories after) : after.SameDirectories t :=
  fun place => (same place).symm

theorem SameDirectories.trans {last : FileTree} (same : t.SameDirectories after)
    (later : after.SameDirectories last) : t.SameDirectories last :=
  fun place => (same place).trans (later place)

theorem follow_of_not_directory (names : Names part) (free : t.item? (start ++ [part]) ≠ some .directory) :
    ∃ spot, t.follow start [part] = .ok spot ∧ Writable (start ++ [part]) spot := by
  rw [follow_of_names names]
  cases atPart : t.item? (start ++ [part]) with
  | none => exact ⟨_, rfl, rfl⟩
  | some item =>
    cases item with
    | directory => exact absurd atPart free
    | file bytes modified => exact ⟨_, rfl, rfl⟩

/-- A path to a place for a file leads there whatever the files are. -/
theorem Leads.follow_writable (leads : t.Leads start parts spot) (writable : Writable place spot)
    (same : t.SameDirectories after) :
    ∃ other, after.follow start parts = .ok other ∧ Writable place other := by
  induction leads with
  | here => exact writable.elim
  | idle idle _ ih =>
    rw [follow, if_pos idle]
    exact ih writable
  | up said up _ ih =>
    rw [follow, if_neg (Bool.eq_false_iff.mp said), if_pos (beq_iff_eq.mpr up)]
    exact ih writable
  | long => exact writable.elim
  | down names directory _ ih =>
    rw [follow_of_names names, (same _).mp directory]
    exact ih writable
  | file names atPlace _ =>
    obtain ⟨rfl, rfl⟩ := writable.last_part (.inl ⟨_, _, rfl⟩)
    refine follow_of_not_directory names fun directory => ?_
    rw [(same _).mpr directory] at atPlace
    cases atPlace
  | vacant names atPlace _ =>
    obtain ⟨rfl, rfl⟩ := writable.last_part (.inr rfl)
    refine follow_of_not_directory names fun directory => ?_
    rw [(same _).mpr directory] at atPlace
    cases atPlace

theorem Leads.follow_directory (leads : t.Leads start parts (.directory place))
    (same : t.SameDirectories after) : after.follow start parts = .ok (.directory place) := by
  generalize atEnd : Spot.directory place = spot at leads
  induction leads with
  | here =>
    cases atEnd
    rfl
  | idle idle _ ih =>
    rw [follow, if_pos idle]
    exact ih atEnd
  | up said up _ ih =>
    rw [follow, if_neg (Bool.eq_false_iff.mp said), if_pos (beq_iff_eq.mpr up)]
    exact ih atEnd
  | down names directory _ ih =>
    rw [follow_of_names names, (same _).mp directory]
    exact ih atEnd
  | long => cases atEnd
  | file => cases atEnd
  | vacant => cases atEnd

theorem SameDirectories.place?_of_some (same : t.SameDirectories after)
    (found : t.place? p = some place) : after.place? p = some place := by
  obtain ⟨spot, located, writable⟩ := place?_eq_some_iff.mp found
  obtain ⟨led, followed⟩ := locate_eq_ok located
  obtain ⟨other, leads, writable⟩ := (leads_of_follow led).follow_writable writable same
  exact place?_eq_some_iff.mpr ⟨other, (followed after).trans leads, writable⟩

theorem SameDirectories.place?_eq (same : t.SameDirectories after) (p : Path) :
    after.place? p = t.place? p :=
  Option.ext fun _ => ⟨same.symm.place?_of_some, same.place?_of_some⟩

theorem SameDirectories.locate_directory (same : t.SameDirectories after)
    (located : t.locate p = .ok (.directory place)) : after.locate p = .ok (.directory place) := by
  obtain ⟨led, followed⟩ := locate_eq_ok located
  exact (followed after).trans ((leads_of_follow led).follow_directory same)

/-- What a path leads to is what stands at its place. -/
theorem Leads.item?_eq (leads : t.Leads start parts spot) (writable : Writable place spot) :
    spot = match t.item? place with
      | some (.file bytes modified) => .file place bytes modified false
      | _ => .vacant place false := by
  induction leads with
  | here => exact writable.elim
  | idle _ _ ih => exact ih writable
  | up _ _ _ ih => exact ih writable
  | long => exact writable.elim
  | down _ _ _ ih => exact ih writable
  | file _ atPlace _ =>
    obtain ⟨rfl, rfl⟩ := writable.last_part (.inl ⟨_, _, rfl⟩)
    rw [atPlace]
    rfl
  | vacant _ atPlace _ =>
    obtain ⟨rfl, rfl⟩ := writable.last_part (.inr rfl)
    rw [atPlace]
    rfl

theorem locate_of_place? (found : t.place? p = some place) :
    t.locate p = match t.item? place with
      | some (.file bytes modified) => .ok (.file place bytes modified false)
      | _ => .ok (.vacant place false) := by
  obtain ⟨spot, located, writable⟩ := place?_eq_some_iff.mp found
  have led := (leads_of_follow (locate_eq_ok located).1).item?_eq writable
  rw [located, led]
  split <;> rfl

/-- A path leads to a file as it is. -/
theorem locate_eq_file_iff {bytes : Bytes} {modified : Nat} :
    t.locate p = .ok (.file place bytes modified false) ↔
      t.place? p = some place ∧ t.item? place = some (.file bytes modified) := by
  constructor
  · intro located
    have found : t.place? p = some place := place?_eq_some_iff.mpr ⟨_, located, rfl⟩
    have atPlace := locate_of_place? found
    rw [located] at atPlace
    refine ⟨found, ?_⟩
    split at atPlace
    · rename_i file
      cases atPlace
      exact file
    · cases atPlace
  · rintro ⟨found, file⟩
    rw [locate_of_place? found, file]

theorem write_eq_ok_iff {bytes : Bytes} {time : Nat} :
    t.write p bytes time = .ok after ↔
      ∃ place, t.place? p = some place ∧ after = t.put place (.file bytes time) := by
  constructor
  · intro written
    obtain ⟨place, spot, located, writable, same⟩ := write_eq_ok written
    exact ⟨place, place?_eq_some_iff.mpr ⟨spot, located, writable⟩, same⟩
  · rintro ⟨place, found, rfl⟩
    obtain ⟨spot, located, writable⟩ := place?_eq_some_iff.mp found
    exact write_of_writable located writable bytes time

/-- To write a file makes no directory and takes none away. -/
theorem sameDirectories_put (found : t.place? p = some place) (bytes : Bytes) (time : Nat) :
    t.SameDirectories (t.put place (.file bytes time)) := by
  obtain ⟨spot, located, writable⟩ := place?_eq_some_iff.mp found
  have free := (leads_of_follow (locate_eq_ok located).1).not_directory writable
  intro other
  by_cases same : other = place
  · subst same
    rw [item?_put_self]
    exact ⟨fun directory => absurd directory free, fun impossible => by cases impossible⟩
  · rw [item?_put_of_ne t same]

/-- A file that is there after a write is the one that was written, or it was there before. -/
theorem locate_file_put (found : t.place? q = some place) {bytes held : Bytes} {time modified : Nat}
    {other : Location}
    (located : (t.put place (.file bytes time)).locate p = .ok (.file other held modified false)) :
    (other = place ∧ held = bytes ∧ modified = time) ∨
      (other ≠ place ∧ t.locate p = .ok (.file other held modified false)) := by
  obtain ⟨atOther, file⟩ := locate_eq_file_iff.mp located
  by_cases same : other = place
  · rw [same, item?_put_self] at file
    cases file
    exact .inl ⟨same, rfl, rfl⟩
  · rw [item?_put_of_ne t same] at file
    rw [(sameDirectories_put found bytes time).place?_eq] at atOther
    exact .inr ⟨same, locate_eq_file_iff.mpr ⟨atOther, file⟩⟩

/-- A path leads to the file that was written at its place. -/
theorem locate_put_self (found : t.place? p = some place) (bytes : Bytes) (time : Nat) :
    (t.put place (.file bytes time)).locate p = .ok (.file place bytes time false) := by
  have still := (sameDirectories_put found bytes time).place?_eq p
  exact locate_eq_file_iff.mpr ⟨still.trans found, t.item?_put_self place _⟩

theorem locate_put_of_ne (found : t.place? q = some place) {other : Location} {held : Bytes} {modified : Nat}
    (located : t.locate p = .ok (.file other held modified false)) (different : other ≠ place)
    (bytes : Bytes) (time : Nat) :
    (t.put place (.file bytes time)).locate p = .ok (.file other held modified false) := by
  obtain ⟨atOther, file⟩ := locate_eq_file_iff.mp located
  have still := (sameDirectories_put found bytes time).place?_eq p
  exact locate_eq_file_iff.mpr ⟨still.trans atOther, (t.item?_put_of_ne different _).trans file⟩

theorem read_eq_ok_iff {bytes : Bytes} :
    t.read p = .ok bytes ↔ ∃ place modified, t.locate p = .ok (.file place bytes modified false) := by
  constructor
  · intro held
    rw [read] at held
    cases located : t.locate p with
    | error cause =>
      rw [located] at held
      cases held
    | ok spot =>
      rw [located] at held
      cases spot with
      | directory place => cases held
      | file place old modified asDirectory =>
        cases asDirectory with
        | false =>
          cases held
          exact ⟨place, modified, rfl⟩
        | true => cases held
      | vacant place asDirectory => cases held
      | unnameable asDirectory => cases held
  · rintro ⟨place, modified, located⟩
    rw [read, located]
    rfl

end FileTree

end PseudoWord
