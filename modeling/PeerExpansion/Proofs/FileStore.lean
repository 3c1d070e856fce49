import PeerExpansion.FileStore
import PeerExpansion.Proofs.Text.Utf8

/-! # Writing files and reading them again

A file can be written where every directory on the way is there and the last step leads to none.
Written bytes are read again through the same path: a new file is never a directory that a path
leads through.
-/

namespace PeerExpansion

theorem Text.plainLineEnds_eq_self {text : List Char} (plain : '\r' ∉ text) :
    plainLineEnds text = text := by
  induction text with
  | nil => rfl
  | cons character rest inductionHypothesis =>
    rw [List.mem_cons, not_or] at plain
    rw [plainLineEnds]
    · rw [inductionHypothesis plain.2]
    · rintro others rfl
      exact absurd rfl plain.1
    · rintro rfl
      exact absurd rfl plain.1

/-- Plain line ends have no carriage return. -/
theorem Text.not_mem_plainLineEnds (text : List Char) : '\r' ∉ plainLineEnds text := by
  induction text using plainLineEnds.induct with
  | case1 => exact List.not_mem_nil
  | case2 rest inductionHypothesis =>
    rw [plainLineEnds, List.mem_cons, not_or]
    exact ⟨by decide, inductionHypothesis⟩
  | case3 rest other inductionHypothesis =>
    rw [plainLineEnds, List.mem_cons, not_or]
    · exact ⟨by decide, inductionHypothesis⟩
    · exact other
  | case4 character rest other lone inductionHypothesis =>
    rw [plainLineEnds, List.mem_cons, not_or]
    · exact ⟨fun same => lone same.symm, inductionHypothesis⟩
    · exact other
    · exact lone

namespace FileStore

variable {store written : FileStore} {path : FilePath} {place final target : List String}
  {node : FileNode} {steps : List String}

/-- The path leads to a place that is no directory. -/
def IsFree (store : FileStore) (path : FilePath) : Prop :=
  ∃ place, store.place path = .ok place ∧ store.node? place ≠ some .directory

theorem isAnchor_eq_false (free : store.node? place ≠ some .directory) :
    isAnchor place = false := by
  cases anchor : isAnchor place with
  | false => rfl
  | true => exact absurd (by rw [node?, if_pos anchor]) free

theorem node?_put_self (free : store.node? place ≠ some .directory) (node : FileNode) :
    (store.put place node).node? place = some node := by
  rw [node?_put, if_neg (by simp [isAnchor_eq_false free]), if_pos rfl]

/-- What is put where there is no directory takes no directory away. -/
theorem node?_put_of_directory (free : store.node? target ≠ some .directory)
    (directory : store.node? place = some .directory) :
    (store.put target node).node? place = some .directory := by
  have unlike : place ≠ target := by
    rintro rfl
    exact free directory
  rw [node?_put, if_neg unlike, directory, ite_self]

theorem placeFrom_put (free : store.node? target ≠ some .directory)
    (found : store.placeFrom place steps = .ok final) :
    (store.put target node).placeFrom place steps = .ok final := by
  induction steps generalizing place with
  | nil => exact found
  | cons step steps inductionHypothesis =>
    rw [placeFrom] at found ⊢
    split at found
    next => cases found
    next => cases found
    next directory =>
      rw [node?_put_of_directory free directory]
      exact inductionHypothesis found

theorem write_eq_ok_iff {bytes : List UInt8} :
    store.write path bytes = .ok written ↔
      ∃ place, store.place path = .ok place ∧ store.node? place ≠ some .directory ∧
        written = store.put place (.file bytes) := by
  rw [write]
  cases found : store.place path with
  | error fault => simp [bind, Except.bind]
  | ok place =>
    dsimp only [bind, Except.bind]
    split
    next directory => simp [directory, throw, throwThe, MonadExceptOf.throw]
    next free =>
      refine ⟨fun wrote => ⟨place, rfl, free, (Except.ok.inj wrote).symm⟩, ?_⟩
      rintro ⟨_, ⟨⟩, -, rfl⟩
      rfl

theorem exists_write (free : store.IsFree path) (bytes : List UInt8) :
    ∃ written, store.write path bytes = .ok written := by
  obtain ⟨place, found, free⟩ := free
  exact ⟨_, write_eq_ok_iff.mpr ⟨place, found, free, rfl⟩⟩

section Written

variable {bytes : List UInt8} (wrote : store.write path bytes = .ok written)
include wrote

theorem find_of_write : written.find path = .ok (.file bytes) := by
  obtain ⟨place, found, free, rfl⟩ := write_eq_ok_iff.mp wrote
  -- The path leads to the same place as before, for no directory on the way was replaced.
  have same : (store.put place (.file bytes)).place path = .ok place := placeFrom_put free found
  rw [find, same]
  dsimp only [bind, Except.bind]
  rw [node?_put_self free]
  rfl

theorem exists?_of_write : written.exists? path = true := by
  rw [exists?, find_of_write wrote]
  rfl

theorem read_of_write : written.read path = .ok bytes := by
  rw [read, find_of_write wrote]
  rfl

end Written

theorem readText_of_read {bytes : List UInt8} {text : List Char}
    (read : store.read path = .ok bytes) (decoded : Utf8.decode bytes = .ok text) :
    store.readText path = .ok (Text.plainLineEnds text) := by
  rw [readText, read]
  dsimp only
  rw [decoded]

/-- A text without carriage returns is read as it was written. -/
theorem readText_of_writeText {text : String} (wrote : store.writeText path text = .ok written)
    (plain : '\r' ∉ text.toList) : written.readText path = .ok text.toList := by
  rw [readText_of_read (read_of_write wrote) (Utf8.decode_encode _),
    Text.plainLineEnds_eq_self plain]

end FileStore

end PeerExpansion
