import ValueCoverage.Error
import ValueCoverage.Ordered.OrderedMap
import ValueCoverage.Text.Split

/-!
# Files

The files that a run can read and write, and the folders that hold them. A path is names with
slashes between them, followed from the outermost folder; `.` stays in a folder and `..` goes to the
one around it. What was written under a path is read under it, and a file elsewhere stays as it was.
-/

namespace ValueCoverage

/-- The names that lead from the outermost folder to a file or a folder. -/
abbrev Location := List String

/-- Files by location, and the folders in the outermost one. -/
structure Files where
  folders : List Location
  files : OrderedMap Location Bytes
deriving Repr, DecidableEq

/-- A path in pieces. -/
structure FilePath where
  /-- The names in front of the last. -/
  folder : List String
  last : String
  /-- Whether a slash follows the last name. -/
  isClosed : Bool
deriving Repr, DecidableEq

namespace FilePath

/-- A path takes fewer bytes than this. -/
def lengthLimit : Nat := 4096

/-- A name takes at most this many bytes. -/
def nameLimit : Nat := 255

/-- The names in a path; slashes beside each other count as one. -/
def namesOf (path : List Char) : List String :=
  ((Text.splitOn '/' path).filter fun name => !name.isEmpty).map String.ofList

/-- Takes a path apart. -/
def ofString (path : String) : Except IoFault FilePath :=
  if path.toList.contains '\x00' then .error .zeroInName
  else if path.isEmpty then .error .notFound
  else if lengthLimit ≤ path.utf8ByteSize then .error .nameTooLong
  else
    match (namesOf path.toList).reverse with
    | [] => .ok ⟨[], ".", true⟩
    | last :: folder => .ok ⟨folder.reverse, last, path.toList.getLast? == some '/'⟩

/-- Whether the end of a path alone says that it leads to a folder. -/
def isOfFolder (p : FilePath) : Bool :=
  p.isClosed || p.last == "." || p.last == ".."

end FilePath

/-- The place that a name stands for in a folder, whether something is there or not. -/
def Location.enter (folder : Location) (name : String) : Except IoFault Location :=
  if name = "." then .ok folder
  else if name = ".." then .ok folder.dropLast
  else if FilePath.nameLimit < name.utf8ByteSize then .error .nameTooLong
  else .ok (folder ++ [name])

namespace Files

/-- No folders and no files. -/
def empty : Files := ⟨[], .empty⟩

instance : Inhabited Files := ⟨empty⟩

/-- Whether there is a folder at a location. -/
def isFolder (fs : Files) (l : Location) : Bool := l.isEmpty || fs.folders.contains l

/-- The folder that names lead to from another one. -/
def folderAt (fs : Files) : Location → List String → Except IoFault Location
  | folder, [] => .ok folder
  | folder, name :: rest =>
    match folder.enter name with
    | .error fault => .error fault
    | .ok next =>
      if fs.isFolder next then fs.folderAt next rest
      else if fs.files.contains next then .error .notDirectory
      else .error .notFound

/-- The place that a path leads to, whether something is there or not. -/
def locate (fs : Files) (p : FilePath) : Except IoFault Location :=
  match fs.folderAt [] p.folder with
  | .error fault => .error fault
  | .ok folder => folder.enter p.last

/-- What a file holds. -/
def read (fs : Files) (path : String) : Except IoFault Bytes := do
  let p ← FilePath.ofString path
  let place ← fs.locate p
  if fs.isFolder place then .error .isDirectory
  else
    match fs.files.get? place with
    | none => .error .notFound
    | some bytes => if p.isClosed then .error .notDirectory else .ok bytes

/-- The place of the file that is written under a path. -/
def target (fs : Files) (path : String) : Except IoFault Location := do
  let p ← FilePath.ofString path
  let folder ← fs.folderAt [] p.folder
  if p.isOfFolder then .error .isDirectory
  else
    let place ← folder.enter p.last
    if fs.isFolder place then .error .isDirectory else .ok place

/-- Replaces what a file holds, or makes the file. -/
def write (fs : Files) (path : String) (bytes : Bytes) : Except IoFault Files := do
  let place ← fs.target path
  return { fs with files := fs.files.insert place bytes }

/-- A folder that is found is found whatever files there are. -/
theorem folderAt_eq_ok {fs fs' : Files} (hf : fs'.folders = fs.folders) {names : List String}
    {start place : Location} (h : fs.folderAt start names = .ok place) :
    fs'.folderAt start names = .ok place := by
  induction names generalizing start with
  | nil => exact h
  | cons name rest ih =>
    simp only [folderAt] at h ⊢
    cases he : Location.enter start name with
    | error fault => simp [he] at h
    | ok next =>
      simp only [he] at h ⊢
      by_cases hd : fs.isFolder next
      · have hd' : fs'.isFolder next := by rwa [isFolder, hf]
        rw [if_pos hd] at h
        rw [if_pos hd']
        exact ih h
      · rw [if_neg hd] at h
        split at h <;> simp at h

/-- A file that can be written is written where its path leads to. -/
theorem target_eq_ok_iff {fs : Files} {path : String} {place : Location} :
    fs.target path = .ok place ↔
      ∃ p, FilePath.ofString path = .ok p ∧ p.isOfFolder = false ∧ fs.locate p = .ok place ∧
        fs.isFolder place = false := by
  unfold target locate
  cases FilePath.ofString path with
  | error fault => simp [bind, Except.bind]
  | ok p =>
    simp only [bind, Except.bind, Except.ok.injEq, exists_eq_left']
    cases fs.folderAt [] p.folder with
    | error fault => simp
    | ok folder =>
      cases p.isOfFolder with
      | true => simp
      | false =>
        cases he : Location.enter folder p.last with
        | error fault => simp [he]
        | ok l =>
          cases hd : fs.isFolder l <;> simp [he, hd] <;> rintro rfl <;> simp [hd]

/-- A file is read where its path leads to. -/
theorem read_eq_ok_iff {fs : Files} {path : String} {bytes : Bytes} :
    fs.read path = .ok bytes ↔
      ∃ p place, FilePath.ofString path = .ok p ∧ fs.locate p = .ok place ∧ p.isClosed = false ∧
        fs.isFolder place = false ∧ fs.files.get? place = some bytes := by
  unfold read
  cases FilePath.ofString path with
  | error fault => simp [bind, Except.bind]
  | ok p =>
    cases hl : fs.locate p with
    | error fault => simp [bind, Except.bind, hl]
    | ok place =>
      cases hd : fs.isFolder place <;> cases hg : fs.files.get? place <;>
        cases hc : p.isClosed <;> simp [bind, Except.bind, hl, hd, hg, hc]

/-- Writing a file changes nothing about where paths lead to. -/
theorem locate_write {fs fs' : Files} {path : String} {bytes : Bytes} {p : FilePath}
    {place : Location} (h : fs.write path bytes = .ok fs') (hp : fs.locate p = .ok place) :
    fs'.locate p = .ok place := by
  have hf : fs'.folders = fs.folders := by
    unfold write at h
    cases ht : fs.target path <;> simp [ht, bind, Except.bind, pure, Except.pure] at h
    rw [← h]
  unfold locate at hp ⊢
  cases hd : fs.folderAt [] p.folder with
  | error fault => simp [hd] at hp
  | ok folder =>
    rw [folderAt_eq_ok hf hd]
    simpa only [hd] using hp

/-- What was written is read. -/
theorem read_write {fs fs' : Files} {path : String} {bytes : Bytes}
    (h : fs.write path bytes = .ok fs') : fs'.read path = .ok bytes := by
  have hw := h
  unfold write at h
  cases ht : fs.target path with
  | error fault => simp [ht, bind, Except.bind] at h
  | ok place =>
    simp only [ht, bind, Except.bind, pure, Except.pure, Except.ok.injEq] at h
    obtain ⟨p, hp, hc, hl, hd⟩ := target_eq_ok_iff.1 ht
    refine read_eq_ok_iff.2 ⟨p, place, hp, locate_write hw hl, ?_, ?_, ?_⟩
    · unfold FilePath.isOfFolder at hc
      simp at hc
      exact hc.1.1
    · rw [← h]
      exact hd
    · rw [← h]
      simp [OrderedMap.insert]

/-- A file elsewhere stays as it was. -/
theorem read_write_of_ne {fs fs' : Files} {path other : String} {bytes old : Bytes} {p : FilePath}
    (h : fs.write path bytes = .ok fs') (hp : FilePath.ofString other = .ok p)
    (hne : fs.locate p ≠ fs.target path) (ho : fs.read other = .ok old) :
    fs'.read other = .ok old := by
  have hw := h
  obtain ⟨q, place, hq, hl, hc, hd, hg⟩ := read_eq_ok_iff.1 ho
  obtain rfl : q = p := Except.ok.inj (hq.symm.trans hp)
  unfold write at h
  cases ht : fs.target path with
  | error fault => simp [ht, bind, Except.bind] at h
  | ok written =>
    simp only [ht, bind, Except.bind, pure, Except.pure, Except.ok.injEq] at h
    have hn : place ≠ written := fun e => hne (by rw [hl, ht, e])
    refine read_eq_ok_iff.2 ⟨q, place, hq, locate_write hw hl, hc, ?_, ?_⟩
    · rw [← h]
      exact hd
    · rw [← h, ← hg]
      exact OrderedMap.get?_alter_of_ne _ hn _

end Files

/-- Reads a coverage file. -/
def CoverageFile.load (fs : Files) (path : String) (codec : Codec) : Except CoverageError Store :=
  match fs.read path with
  | .error fault => .error (.io fault)
  | .ok bytes => (CoverageFile.read codec bytes).mapError .ofRead

end ValueCoverage
