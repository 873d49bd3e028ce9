import TrailingYear.Command.Files
import Mathlib.Data.List.Basic

/-! # Files that have been written

A file that is written makes no directory disappear. So every path that led somewhere still leads
there, and the new content is what is read at the path of the file. -/

namespace TrailingYear
namespace Files

variable {files : Files} {path : String} {content : List UInt8} {rooted : Bool}

theorem isDirectory_write {place : List Part} (h : isDirectory files rooted place) :
    isDirectory (files.write path content) rooted place := by
  simp only [isDirectory, write, List.any_cons, Bool.or_eq_true] at h ⊢
  exact h.imp_right .inr

theorem follow_write {rest place found : List Part}
    (h : follow files rooted place rest = some found) :
    follow (files.write path content) rooted place rest = some found := by
  induction rest generalizing place with
  | nil => exact h
  | cons part rest ih =>
    rw [follow] at h ⊢
    by_cases hidle : isIdle part
    · rw [if_pos hidle] at h ⊢
      exact ih h
    rw [if_neg hidle] at h ⊢
    by_cases hback : (isParent part && place.any fun step => !isParent step) = true
    · rw [if_pos hback] at h ⊢
      by_cases hdirectory : isDirectory files rooted place
      · rw [if_pos hdirectory] at h
        rw [if_pos (isDirectory_write hdirectory)]
        exact ih h
      · rw [if_neg hdirectory] at h
        cases h
    · rw [if_neg hback] at h ⊢
      exact ih h

theorem locate_write {other : String} {place : Bool × List Part}
    (h : locate files other = some place) :
    locate (files.write path content) other = some place := by
  obtain ⟨found, hfound, rfl⟩ := Option.map_eq_some_iff.mp h
  rw [locate, follow_write hfound]
  rfl

theorem read?_write_of_place {place : Bool × List Part}
    (hplace : locate (files.write path content) path = some place) (hname : namesFile path) :
    (files.write path content).read? path = some content := by
  rw [read?, hplace]
  dsimp only
  rw [if_pos hname, write, List.find?_cons_of_pos]
  · rfl
  · exact decide_eq_true hplace

/-- What has been written to a path that leads somewhere is read there. -/
theorem read?_write (h : (locate files path).isSome) (hname : namesFile path) :
    (files.write path content).read? path = some content := by
  obtain ⟨place, hplace⟩ := Option.isSome_iff_exists.mp h
  exact read?_write_of_place (locate_write hplace) hname

/-- Nothing but the new content is read at a path that has been written to. -/
theorem eq_of_read?_write {bytes : List UInt8} (hname : namesFile path)
    (h : (files.write path content).read? path = some bytes) : bytes = content := by
  cases hplace : locate (files.write path content) path with
  | none =>
    rw [read?, hplace] at h
    cases h
  | some place =>
    rw [read?_write_of_place hplace hname] at h
    exact (Option.some.inj h).symm

theorem isTaken_of_read? {bytes : List UInt8} (h : files.read? path = some bytes) :
    files.isTaken path := by
  rw [isTaken, h]
  rfl

theorem read?_of_not_isTaken (h : files.isTaken path = false) : files.read? path = none := by
  cases hread : files.read? path with
  | none => rfl
  | some bytes =>
    rw [isTaken_of_read? hread] at h
    cases h

/-- A path that has been written to and still is not read leads nowhere. -/
theorem not_isTaken_write (hname : namesFile path)
    (h : (files.write path content).read? path = none) :
    (files.write path content).isTaken path = false := by
  cases hplace : locate (files.write path content) path with
  | none =>
    rw [isTaken, h, hplace]
    exact Bool.and_false _
  | some place =>
    rw [read?_write_of_place hplace hname] at h
    cases h

/-- A path names a file if what follows its last slash does. -/
theorem namesFile_of_append {outer name : List Char} (hpath : path.toList = outer ++ '/' :: name)
    (hslash : name.splitOn '/' = [name]) (hidle : isIdle name = false) : namesFile path := by
  have hlast : (parts path).getLast? = some name := by
    rw [parts, hpath, List.splitOn_append_cons_self, hslash, List.getLast?_concat]
  rw [namesFile, hlast]
  dsimp only
  rw [hidle]
  rfl

end Files
end TrailingYear
